import DicePool.Analysis
import DicePool.Analysis.Pools
import DicePool.Error
import DicePool.Expression.Nested
import DicePool.Limits
import DicePool.Modifiers.Pool

/-!
# Exact analysis

Independent dice that are all counted add up by convolution, and their successes are binomial.
When dice are kept or dropped, every pool is enumerated with its weight, within the limit on
outcomes. Explosions and rerolls have no exact analysis here.
-/

namespace DicePool.Analysis

/-- The tally of one boosted die. -/
def single (spec : Spec) (numbers : List Value) : Tally Value :=
  Tally.ofList (numbers.map spec.modifiers.boost.apply)

/-- The tally of the number of dice among `n` that meet a condition. -/
def binomial (n : Nat) (die : Tally Value) (c : Condition) : Tally Nat :=
  let hits := die.weightWhere c.holds
  let misses := die.total - hits
  (List.range (n + 1)).foldr
    (fun k t ↦ t.record k (Pools.choose n k * Nat.pow hits k * Nat.pow misses (n - k))) Tally.empty

/-- The tallies of totals and of successes. -/
structure Tallies where
  totals : Tally Value
  successes? : Option (Tally Nat)

/-- Adds the values that a pool keeps, with a weight. -/
def Tallies.record (success? : Option Condition) (t : Tallies) (kept : List Value) (w : Nat) :
    Tallies where
  totals := t.totals.record (Value.sum kept) w
  successes? :=
    match t.successes?, success? with
    | some s, some c => some (s.record (kept.countP c.holds) w)
    | s, _ => s

/-- The tallies of dice that are all counted. -/
def independent (spec : Spec) (die : Tally Value) : Tallies where
  totals := @Tally.power Value _ _ Value.wrapping die spec.count
  successes? := spec.modifiers.success?.map (binomial spec.count die)

/-- The tallies of dice of which some are kept or dropped, unless there are too many pools
(`enumerate_pool`). -/
def pooled (spec : Spec) (limits : Limits) (die : Tally Value) : Except Error Tallies :=
  let faces := Table.keys die.counts
  let weights := Table.values die.counts
  let pools := Pools.number faces.length spec.count
  if limits.outcomes < pools then .error (.tooManyOutcomes pools limits.outcomes)
  else
    let success? := spec.modifiers.success?
    let visit (t : Tallies) (counts : List Nat) : Tallies :=
      t.record success? (spec.modifiers.filterPool (Pools.expand faces counts))
        (Pools.weight spec.count weights counts)
    .ok (Pools.fold visit faces.length spec.count
      ⟨Tally.empty, success?.map fun _ ↦ Tally.empty⟩)

/-- The exact analysis of a specification (`analyze`). -/
def exact (spec : Spec) (limits : Limits) : Except Error Analysis := do
  if spec.modifiers.contains .explode then throw (.unsupportedModifier .explode)
  if spec.modifiers.contains .reroll then throw (.unsupportedModifier .reroll)
  match spec.faces.numbers? with
  | none => throw (.nonNumericFaces spec.faces.kind)
  | some numbers =>
    let die := single spec numbers
    let tallies ← if spec.modifiers.selects then pooled spec limits die
      else pure (independent spec die)
    let adjustment : Value := spec.modifiers.adjustment
    let distribution := (Distribution.ofTally tallies.totals).map (Value.plus · adjustment)
    let pass? := spec.modifiers.totalCheck?.map fun c ↦ distribution.massWhere c.holds
    match Analysis.of? distribution (tallies.successes?.map Distribution.ofTally) pass? .exact with
    | some analysis => return analysis
    | none => throw .noSamples

/-- The exact analysis of an expression without nested dice (`analyze_with`). -/
def ofExpression (text : String) (limits : Limits) : Except Error Analysis := do
  let spec ← (Expression.parseLiteral text).mapError .parse
  exact spec limits

end DicePool.Analysis
