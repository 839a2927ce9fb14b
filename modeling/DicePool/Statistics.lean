import DicePool.Distribution

/-!
# Summary statistics

Location and spread of a distribution over values, all exact.
-/

namespace DicePool

/-- The statistics of a distribution that is not empty (`Stats`). -/
structure Statistics where
  mean : Probability
  variance : Probability
  min : Value
  max : Value
  /-- All outcomes of greatest mass, ascending. -/
  mode : List Value
  median : Value
  /-- Outcomes by the percentage of mass that they reach, ascending. -/
  percentiles : List (Nat × Value)
  deriving Repr, DecidableEq

namespace Statistics

/-- The mean outcome, each weighted by its mass. -/
def meanOf (d : Distribution Value) : Probability := sumOf (d.outcomes.map fun e ↦ e.1 * e.2)

/-- The mean squared distance from a point. -/
def spreadOf (d : Distribution Value) (center : Probability) : Probability :=
  sumOf (d.outcomes.map fun e ↦ (e.1 - center) * (e.1 - center) * e.2)

/-- The greatest of the masses and a first one. -/
def greatest (first : Probability) (masses : List Probability) : Probability :=
  masses.foldl (fun a b ↦ if a < b then b else a) first

/-- The outcomes of greatest mass. -/
def modeOf (d : Distribution Value) : List Value :=
  match Table.values d.outcomes with
  | [] => []
  | p :: ps =>
    let top := greatest p ps
    Table.keys (d.outcomes.filter fun e ↦ e.2 = top)

/-- The first outcome at which the masses, added to `sum`, reach a target. -/
def reach (target : Probability) : (sum : Probability) → Table Value Probability → Option Value
  | _, [] => none
  | sum, (v, p) :: rest => if target ≤ sum + p then some v else reach target (sum + p) rest

/-- The first outcome at which a percentage of the mass is reached, or the greatest one. -/
def percentile (d : Distribution Value) (percent : Nat) (greatest : Value) : Value :=
  (reach ((percent : Probability) / 100) 0 d.outcomes).getD greatest

/-- The statistics of a distribution, unless it is empty. -/
def of? (d : Distribution Value) : Option Statistics := do
  let min ← d.min?
  let max ← d.max?
  let mean := meanOf d
  return {
    mean
    variance := spreadOf d mean
    min
    max
    mode := modeOf d
    median := percentile d 50 max
    percentiles := [25, 50, 75].map fun p ↦ (p, percentile d p max) }

/-- Only the empty distribution has no statistics. -/
theorem of?_eq_none_iff (d : Distribution Value) : of? d = none ↔ d.outcomes = [] := by
  cases h : d.outcomes with
  | nil => simp [of?, Distribution.min?, h]
  | cons e rest => simp [of?, Distribution.min?, Distribution.max?, h, List.getLast?_cons]

end Statistics
end DicePool
