import DicePool.Expression.Nested
import DicePool.Roll.Score

/-!
# Rolling expressions

Nested dice terms are rolled from left to right and replaced by their totals; the text that comes
out is read and rolled.
-/

namespace DicePool.Rolling

variable {σ : Type} [Roller σ]

/-- Rolls a nested term. -/
def substitute (t : Expression.NestedTerm) : Rolling σ Substitution := do
  let spec ← ofParse (Expression.parse t.text)
  return ⟨t.text, ← total spec, String.ofList t.operator.text, t.span⟩

/-- Rolls all nested terms of a text and writes their totals in their places (`resolve_nested`). -/
def resolveNested (text : String) : Rolling σ (String × List Substitution) := do
  let cs := text.toList
  let subs ← (Expression.nestedTerms cs).mapM substitute
  let edits := subs.map fun s ↦ (s.span, (Value.text s.total).toList)
  return (String.ofList (Text.splice cs edits), subs)

/-- Reads an expression after rolling its nested terms (`parse_with`). -/
def parse (text : String) : Rolling σ Spec := do
  let (rewritten, substitutions) ← resolveNested text
  let spec ← ofParse (Expression.parse rewritten)
  return { spec with substitutions }

/-- Reads, rolls and scores an expression (`roll_with`). -/
def roll (text : String) : Rolling σ Scored := do score text (← parse text)

end DicePool.Rolling
