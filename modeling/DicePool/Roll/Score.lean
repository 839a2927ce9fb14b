import DicePool.Roll.Evaluate

/-!
# Scoring a roll

The total is the sum of the values that count, moved by the adjustment. Successes and failures are
counted among the values that count, natural ones among the dice as they fell; the check tests the
total.
-/

namespace DicePool

/-- A roll with everything that is derived from it (`ScoredResult`). -/
structure Scored where
  roll : String
  natural : List Face
  modified : List Face
  total : Value
  success? : Option Nat
  fail? : Option Nat
  naturalSuccess? : Option Nat
  naturalFail? : Option Nat
  pass? : Option Bool
  deriving Repr, DecidableEq

namespace Outcome

/-- The total of an outcome of a specification. Dice that show labels total zero. -/
def total (o : Outcome) (spec : Spec) : Value :=
  if spec.isNumeric then
    Value.plus (Value.sum (o.modified.filterMap Face.number?)) spec.modifiers.adjustment
  else 0

/-- The number of faces whose number meets a condition (`count_matching`). -/
def matching (faces : List Face) (c : Condition) : Nat :=
  (faces.filterMap Face.number?).countP c.holds

/-- Scores an outcome of a specification under the name of its expression. -/
def score (o : Outcome) (name : String) (spec : Spec) : Scored where
  roll := name
  natural := o.natural
  modified := o.modified
  total := o.total spec
  success? := spec.modifiers.success?.map (matching o.modified)
  fail? := spec.modifiers.fail?.map (matching o.modified)
  naturalSuccess? := spec.modifiers.naturalSuccess?.map (matching o.natural)
  naturalFail? := spec.modifiers.naturalFail?.map (matching o.natural)
  pass? := spec.modifiers.totalCheck?.map fun c ↦ c.holds (o.total spec)

end Outcome

namespace Rolling

variable {σ : Type} [Roller σ]

/-- Rolls a specification for its total alone (`quick_total`). -/
def total (spec : Spec) : Rolling σ Value := return (← evaluate spec).total spec

/-- Rolls a specification and scores it under a name. -/
def score (name : String) (spec : Spec) : Rolling σ Scored :=
  return (← evaluate spec).score name spec

end Rolling
end DicePool
