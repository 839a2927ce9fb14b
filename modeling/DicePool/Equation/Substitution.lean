import DicePool.Equation.Scan
import DicePool.Roll.Score

/-!
# Rolling the dice inside a text

All dice expressions of a text are found first, then rolled from left to right and replaced by
their totals.
-/

namespace DicePool.Equation

/-- A text with its dice rolled (`EquationRoll`): the text with the totals in place, and each
expression with its score. -/
structure Rolled where
  text : String
  rolls : List (Term × Scored)
  deriving Repr, DecidableEq

/-- A total inside a text (`format_total`). Parentheses keep a sign or a fraction together. -/
def totalText (total : Value) : String :=
  if total < 0 || !Value.isInteger total then "(" ++ Value.text total ++ ")" else Value.text total

variable {σ : Type} [Roller σ]

/-- Rolls every dice expression of a text and writes its total in its place (`substitute_equation`).
-/
def substitute (text : String) : Rolling σ Rolled := do
  let found ← Rolling.ofParse (terms text)
  let rolls ← found.mapM fun t ↦ return (t, ← Rolling.score t.text t.spec)
  let edits := rolls.map fun r ↦ (r.1.span, (totalText r.2.total).toList)
  return ⟨String.ofList (Text.splice text.toList edits), rolls⟩

end DicePool.Equation
