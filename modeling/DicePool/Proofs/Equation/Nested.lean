import DicePool.Proofs.Equation.Terms
import DicePool.Proofs.Roll.Expression

/-!
# Nested dice in the terms of a text

The scan of a text reads its terms without regard to nested dice, where an expression on its own
refuses them or rolls them ahead. Both read the same exactly where no dice are nested.
-/

namespace DicePool.Equation

open Expression

/-- A term without nested dice is read on its own as it was found, literally and by rolling. A term
with nested dice is refused literally. -/
theorem parseLiteral_of_terms {text : String} {found : List Term} (h : terms text = .ok found) :
    ∀ t ∈ found,
      (parseLiteral t.text = .ok t.spec ↔ nestedTerms t.text.toList = []) ∧
      (nestedTerms t.text.toList = [] → ∀ (σ : Type) [Roller σ] (c : Context σ),
        (Rolling.parse t.text).run c = (.ok t.spec, c)) ∧
      ∀ n rest, nestedTerms t.text.toList = n :: rest →
        parseLiteral t.text = .error ⟨.nestedDice, n.span, n.text⟩ := by
  intro t ht
  have read := (maximal_of_terms h t ht).parse
  refine ⟨?_, fun none σ _ c ↦ ?_, fun n rest nested ↦ ?_⟩
  · unfold parseLiteral
    cases nestedTerms t.text.toList <;> simp [read]
  · rw [Rolling.run_parse_of_nil none, read]
  · rw [parseLiteral, nested]

/-- An attack and its damage have no nested dice and are read literally as they were found. -/
theorem parseLiteral_of_terms_attackDamage :
    ∃ a b, terms "1d20+5 + 2d6" = .ok [a, b] ∧
      parseLiteral a.text = .ok a.spec ∧ parseLiteral b.text = .ok b.spec := by
  obtain ⟨a, b, found, ha, hb⟩ : ∃ a b, terms "1d20+5 + 2d6" = .ok [a, b] ∧
      nestedTerms a.text.toList = [] ∧ nestedTerms b.text.toList = [] :=
    ⟨_, _, rfl, by decide, by decide⟩
  have literal := parseLiteral_of_terms found
  exact ⟨a, b, found, (literal a (by simp)).1.mpr ha, (literal b (by simp)).1.mpr hb⟩

/-- A die after a sign is found as a boost by one and a drop of the lowest six, which is refused
literally. -/
theorem parseLiteral_refuses_term :
    ∃ t, terms "1d20+1d6" = .ok [t] ∧ t.text = "1d20+1d6" ∧
      t.spec.modifiers.boost? = some ⟨.add, 1⟩ ∧ t.spec.modifiers.drop? = some ⟨.low, 6⟩ ∧
      parseLiteral t.text = .error ⟨.nestedDice, ⟨5, 8⟩, "1d6"⟩ :=
  ⟨_, rfl, by decide, by decide, by decide, by decide⟩

end DicePool.Equation
