import DicePool.Analysis
import DicePool.Roll.Expression

/-!
# Sampled analysis

An expression is rolled a number of times and its totals are counted. An expression with nested
dice is read anew for every sample, since they have to be rolled again; any other is read once.
-/

namespace DicePool.Analysis

/-- The tallies of the samples so far, and how many passed the check. -/
structure Samples where
  totals : Tally Value
  successes? : Option (Tally Nat)
  passes : Nat

namespace Samples

/-- No samples of a specification. -/
def none (spec : Spec) : Samples :=
  ⟨Tally.empty, spec.modifiers.success?.map fun _ ↦ Tally.empty, 0⟩

/-- Adds a scored roll. -/
def record (s : Samples) (scored : Scored) : Samples where
  totals := s.totals.recordOne scored.total
  successes? :=
    match s.successes?, scored.success? with
    | some t, some n => some (t.recordOne n)
    | t, _ => t
  passes := if scored.pass? = some true then s.passes + 1 else s.passes

end Samples

variable {σ : Type} [Roller σ]

/-- Adds a number of rolls of an expression, each of the specification that `next` gives. -/
def sample (text : String) (next : Rolling σ Spec) :
    (count : Nat) → Samples → Rolling σ Samples
  | 0, s => return s
  | count + 1, s => do
    let scored ← Rolling.score text (← next)
    sample text next count (s.record scored)

/-- The analysis of a number of rolls of an expression (`monte_carlo`). -/
def monteCarlo (text : String) : (samples : Nat) → Rolling σ Analysis
  | 0 => throw .noSamples
  | others + 1 => do
    let first ← Rolling.parse text
    if !first.isNumeric then throw (.nonNumericFaces first.faces.kind)
    let scored ← Rolling.score text first
    let next := if first.substitutions = [] then pure first else Rolling.parse text
    let all ← sample text next others ((Samples.none first).record scored)
    let pass? := first.modifiers.totalCheck?.map fun _ ↦
      (all.passes : Probability) / ((others + 1 : Nat) : Probability)
    match Analysis.of? (Distribution.ofTally all.totals)
        (all.successes?.map Distribution.ofTally) pass? (.monteCarlo (others + 1)) with
    | some analysis => return analysis
    | none => throw .noSamples

end DicePool.Analysis
