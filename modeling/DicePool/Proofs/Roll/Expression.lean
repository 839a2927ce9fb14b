import DicePool.Proofs.Expression.Parse
import DicePool.Proofs.Roll.Run
import DicePool.Roll.Expression

/-!
# Reading an expression by rolling

Without nested dice terms nothing is rolled, and the expression is read as it is written.
-/

namespace DicePool.Rolling

open Expression

variable {σ : Type}

/-- A text that is read leaves the context alone. -/
@[simp] theorem run_ofParse_ok {α : Type} (a : α) (c : Context σ) :
    (ofParse (.ok a) : Rolling σ α).run c = (.ok a, c) := rfl

/-- A text that is not read leaves the context alone. -/
@[simp] theorem run_ofParse_error {α : Type} (e : ParseError) (c : Context σ) :
    (ofParse (.error e) : Rolling σ α).run c = (.error (.parse e), c) := rfl

/-- An expression is read without substitutions. -/
theorem substitutions_of_parse {text : String} {spec : Spec} (h : Expression.parse text = .ok spec) :
    spec.substitutions = [] := by
  obtain ⟨_, _, _, _, _, _, _, _, _, _, _, _, _, _, rfl⟩ :=
    Grammar.parseTokens_eq_ok.mp (Grammar.parse_eq_ok_iff_parseTokens.mp h)
  rfl

variable [Roller σ]

/-- Without nested terms the text stays as it is. -/
theorem run_resolveNested_of_nil {text : String} (h : nestedTerms text.toList = [])
    (c : Context σ) : (resolveNested text : Rolling σ _).run c = (.ok (text, []), c) := by
  unfold resolveNested
  simp only [h, List.mapM_nil]
  rw [run_bind_of_ok (run_pure _ _), run_pure, List.map_nil, Text.splice_nil, String.ofList_toList]

/-- Without nested terms an expression is read as it is written, and nothing is rolled. -/
theorem run_parse_of_nil {text : String} (h : nestedTerms text.toList = []) (c : Context σ) :
    (parse text : Rolling σ Spec).run c =
      match Expression.parse text with
      | .ok spec => (.ok spec, c)
      | .error e => (.error (.parse e), c) := by
  unfold parse
  rw [run_bind_of_ok (run_resolveNested_of_nil h c)]
  cases read : Expression.parse text with
  | error e => exact run_bind_of_error (by rw [read, run_ofParse_error])
  | ok spec =>
    refine (run_bind_of_ok (a := spec) (by rw [read, run_ofParse_ok])).trans ?_
    rw [run_pure, ← substitutions_of_parse read]

end DicePool.Rolling
