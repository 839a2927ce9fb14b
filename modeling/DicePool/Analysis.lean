import DicePool.Statistics

/-!
# Analyses

What is known about the totals of an expression: their distribution and its statistics, the
distribution of the number of successes, and the probability that the total passes its check.
-/

namespace DicePool

/-- How a distribution was obtained (`Method`). -/
inductive AnalysisMethod where
  | exact
  | monteCarlo (samples : Nat)
  deriving Repr, DecidableEq

/-- The name of a method. -/
def AnalysisMethod.name : AnalysisMethod → String
  | .exact => "exact"
  | .monteCarlo _ => "monte_carlo"

/-- The distribution of the totals of an expression and what follows from it. -/
structure Analysis where
  distribution : Distribution Value
  statistics : Statistics
  /-- The number of successes, if they are counted. -/
  successes? : Option (Distribution Nat)
  /-- The probability of passing, if the total is checked. -/
  pass? : Option Probability
  method : AnalysisMethod
  deriving Repr, DecidableEq

/-- The analysis of a distribution that is not empty (`new`). -/
def Analysis.of? (distribution : Distribution Value) (successes? : Option (Distribution Nat))
    (pass? : Option Probability) (method : AnalysisMethod) : Option Analysis := do
  let statistics ← Statistics.of? distribution
  return { distribution, statistics, successes?, pass?, method }

end DicePool
