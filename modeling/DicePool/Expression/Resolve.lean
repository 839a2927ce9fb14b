import DicePool.Expression.Clause
import DicePool.Expression.Error
import DicePool.Spec

/-!
# Resolving clauses

Clauses are resolved from left to right into the modifiers of a specification. Later clauses
replace earlier ones of their kind, adjustments add up, omitted numbers take a default that hangs
on the largest face. The first clause with a number that is not allowed ends the reading.
-/

namespace DicePool.Expression

/-- The largest count that a selection distinguishes: the greatest 32-bit number. -/
def maxCount : Nat := 4294967295

/-- Counts that do not fit 64 bits are refused. -/
def countBound : Nat := 18446744073709551616

/-- The number that a test compares with when none is written. -/
def Test.default (maxFace : Int) : Test → Int
  | .explode _ _ | .success | .naturalSuccess => maxFace
  | .reroll _ | .fail | .naturalFail => 1
  | .totalCheck => 0

/-- The number of dice selected from an end when none is written. -/
def selectionDefault (maxFace : Int) : Layer → Int
  | .high => maxFace
  | .low => 1

/-- The modifier of a test with its condition. -/
def Test.modifier (c : Condition) : Test → Modifier
  | .explode compound penetrate => .explode ⟨c, compound, penetrate⟩
  | .reroll once => .reroll ⟨c, once⟩
  | .success => .success c
  | .fail => .fail c
  | .naturalSuccess => .naturalSuccess c
  | .naturalFail => .naturalFail c
  | .totalCheck => .totalCheck c

/-- The modifiers resolved so far, and the condition of an evaluator. -/
structure Draft where
  modifiers : Modifiers
  evaluator? : Option Condition
  deriving Repr, DecidableEq

namespace Draft

/-- Nothing but the boost and the adjustment by zero. -/
def start : Draft := ⟨{ boost? := some Boost.identity, adjust? := some 0 }, none⟩

/-- The draft with one more modifier. -/
def insert (d : Draft) (m : Modifier) : Draft := { d with modifiers := d.modifiers.insert m }

end Draft

/-- A written number of bounded size, or the default (`optional_literal`). -/
def literal (default : Int) : Option Token → Except ParseError Int
  | none => .ok default
  | some t => if t.number ≤ maxLiteral then .ok t.number else .error (.atToken .numberTooLarge t)

/-- A written count, or the default; a negative default counts as zero. -/
def count (default : Int) : Option Token → Except ParseError Nat
  | none => .ok (min default.toNat maxCount)
  | some t =>
    if t.number < countBound then .ok (min t.number maxCount)
    else .error (.atToken .numberTooLarge t)

/-- The adjustment moved by a written amount (`parse_adjustment`). -/
def adjusted (total : Int) (negative : Bool) : Option Token → Except ParseError Int
  | none => .ok total
  | some t => do
    let amount ← literal 0 (some t)
    let moved := if negative then total - amount else total + amount
    if moved.natAbs ≤ maxLiteral then .ok moved else .error (.atToken .numberTooLarge t)

/-- Resolves one clause, for faces of which the largest is `maxFace` and a text of `stop` bytes. -/
def Clause.resolve (maxFace : Int) (stop : Nat) (d : Draft) : Clause → Except ParseError Draft
  | .boost operator amount => do
    let magnitude ← literal 0 amount
    let operator := operator.getD .add
    if operator = .divide ∧ magnitude = 0 then
      match amount with
      | some t => .error (.atToken .divisionByZero t)
      | none => .error (.atEnd .divisionByZero stop)
    else .ok (d.insert (.boost ⟨operator, magnitude⟩))
  | .adjust negative amount => do
    let total ← adjusted d.modifiers.adjustment negative amount
    .ok (d.insert (.adjust total))
  | .evaluator comparison threshold => do
    let threshold ← literal maxFace threshold
    .ok { d with evaluator? := some ⟨comparison, threshold⟩ }
  | .keep layer amount => do
    let n ← count (selectionDefault maxFace layer) amount
    .ok (d.insert (.keep ⟨layer, n⟩))
  | .drop layer amount => do
    let n ← count (selectionDefault maxFace layer) amount
    .ok (d.insert (.drop ⟨layer, n⟩))
  | .test t comparison threshold => do
    let threshold ← literal (t.default maxFace) threshold
    .ok (d.insert (t.modifier ⟨comparison.getD .equal, threshold⟩))
  | .compared method comparison => .error (.atToken (.poolComparison method) comparison)

/-- The modifiers of a finished draft. Faces that are not all numbers keep the adjustment alone;
for numbers, successes are counted by the evaluator, else by the last success method, else at the
largest face and above. -/
def Draft.finish (faces : FaceSet) (d : Draft) : Modifiers :=
  if faces.isNumeric then
    let reached : Condition := ⟨.greaterEqual, faces.max?.getD 0⟩
    { d.modifiers with success? := d.evaluator?.or (d.modifiers.success?.or (some reached)) }
  else { adjust? := d.modifiers.adjust? }

/-- The modifiers that the clauses of an expression with the given faces stand for. -/
def resolve (faces : FaceSet) (stop : Nat) (cs : List Clause) : Except ParseError Modifiers := do
  let draft ← cs.foldlM (Clause.resolve (faces.max?.getD 0) stop) Draft.start
  return draft.finish faces

end DicePool.Expression
