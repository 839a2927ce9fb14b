import DicePool.Analysis.Sampling
import DicePool.Proofs.Roll.Blocks
import DicePool.Proofs.Roll.Faithful
import DicePool.Roll.Throw

/-!
# Expressions that are not read

Nested dice are rolled before the expression around them is read, so an expression that is not read
may have been rolled in part: its nested terms up to the first that is not read itself, or all of
them if the text with their totals is not read. Rolling, throwing and sampling fail in the same way
and with the same draws.
-/

namespace DicePool

namespace Rolling

open Expression

variable {σ α β : Type}

/-- Whether an action never fails because of what is written. -/
def ParseSafe (action : Rolling σ α) : Prop :=
  ∀ c e c', action.run c ≠ (.error (.parse e), c')

namespace ParseSafe

/-- Two actions that read nothing. -/
theorem bind {x : Rolling σ α} {f : α → Rolling σ β} (h : ParseSafe x) (hf : ∀ a, ParseSafe (f a)) :
    ParseSafe (x >>= f) := by
  intro c e c' run
  rw [run_bind] at run
  split at run
  · next a c₁ first => exact hf a c₁ e c' run
  · next why c₁ first =>
    cases run
    exact h c e c' first

/-- A finished action does not fail. -/
theorem pure (a : α) : ParseSafe (Pure.pure a : Rolling σ α) := by
  intro c e c' run
  exact nomatch congrArg Prod.fst run

/-- Refilling the budget does not fail. -/
theorem refill : ParseSafe (Rolling.refill : Rolling σ Unit) := by
  intro c e c' run
  exact nomatch congrArg Prod.fst run

end ParseSafe

variable [Roller σ]

/-- The blocks of a roll read nothing. -/
private theorem closed_parseSafe : Closed (σ := σ) ParseSafe where
  pure a := .pure a
  bind h hf := h.bind hf
  get := by
    intro c e c' run
    exact nomatch congrArg Prod.fst run
  exceeded limit := by
    intro c e c' run
    exact nomatch Except.error.inj (congrArg Prod.fst run)
  draw faces := by
    intro c e c' run
    cases hr : c.remaining with
    | zero =>
      rw [run_draw_of_remaining_eq_zero _ _ hr] at run
      exact nomatch congrArg Prod.fst run
    | succ left =>
      rw [run_draw_of_remaining_eq_succ _ _ hr] at run
      exact nomatch congrArg Prod.fst run

/-- Rolling a specification reads nothing. -/
theorem parseSafe_evaluate (spec : Spec) : ParseSafe (evaluate spec : Rolling σ Outcome) :=
  closed_parseSafe.evaluate .refill spec

omit [Roller σ] in
/-- If an action reads a text and nothing else, its parse errors are those of the text. -/
theorem failure_of_ofParse {r : Except ParseError α} {f : α → Rolling σ β}
    {c c' : Context σ} {e : ParseError} (safe : ∀ a, ParseSafe (f a))
    (h : (ofParse r >>= f).run c = (.error (.parse e), c')) : r = .error e ∧ c = c' := by
  cases r with
  | ok a =>
    rw [run_bind_of_ok (run_ofParse_ok a c)] at h
    exact absurd h (safe a c e c')
  | error why =>
    rw [run_bind_of_error (run_ofParse_error why c)] at h
    cases h
    exact ⟨rfl, rfl⟩

/-- Every draw is counted, whatever is answered. -/
private theorem accounts_draws (start : Nat) :
    Accounts (fun k (s : Counted σ) ↦ s.draws = start + k) fun _ _ ↦ True := by
  intro k s draws sides pos
  refine ⟨trivial, ?_⟩
  show s.draws + 1 = start + (k + 1)
  omega

/-- A nested term fails for what is written only if it is not read, and then it is not rolled. -/
theorem failure_of_substitute {t : NestedTerm} {c c' : Context σ} {e : ParseError}
    (h : (substitute t).run c = (.error (.parse e), c')) :
    Expression.parse t.text = .error e ∧ c = c' :=
  failure_of_ofParse
    (fun spec ↦ ((parseSafe_evaluate spec).bind fun _ ↦ .pure _).bind fun _ ↦ .pure _) h

/-- What has happened when the nested terms of a text are not read: those before the first that is
not read have been rolled. -/
private theorem failure_of_mapM {cs : List Char} {terms : List NestedTerm}
    {c c' : Context (Counted σ)} {e : ParseError} (ht : ∀ t ∈ terms, t ∈ nestedTerms cs)
    (h : (terms.mapM substitute).run c = (.error (.parse e), c')) :
    ∃ rolled t more, terms = rolled ++ t :: more ∧ Expression.parse t.text = .error e ∧
      (∀ r ∈ rolled, ∃ spec, Expression.parse r.text = .ok spec) ∧
      c'.source.draws = c.source.draws + (rolled.map fun r ↦ r.count.number).sum ∧
      (rolled = [] → c' = c) := by
  obtain ⟨rolled, t, more, subs, c₁, rfl, done, fails⟩ := run_mapM_eq_error_iff.mp h
  obtain ⟨unread, rfl⟩ := failure_of_substitute fails
  have accounts := accounts_draws (σ := σ) c.source.draws
  have spends := Spends.mapM fun r hr ↦ spends_substitute accounts (ht r (List.mem_append_left _ hr))
  obtain ⟨recorded, draws⟩ := spends 0 c subs c₁ rfl done
  refine ⟨rolled, t, more, rfl, unread, read_of_recorded recorded, by rw [draws, Nat.zero_add],
    fun none ↦ ?_⟩
  subst none
  cases done
  rfl

/-- Whether the nested terms of a text have been rolled up to the first that is not read itself, or
all of them if the text with their totals is not read. Each of their dice has been drawn once, and
without such terms the context is as it was. -/
def RolledInPart (text : String) (e : ParseError) (c c' : Context (Counted σ)) : Prop :=
  ∃ rolled rest, nestedTerms text.toList = rolled ++ rest ∧
    (∀ r ∈ rolled, ∃ spec, Expression.parse r.text = .ok spec) ∧
    c'.source.draws = c.source.draws + (rolled.map fun r ↦ r.count.number).sum ∧
    (rolled = [] → c' = c) ∧
    ((∃ t more, rest = t :: more ∧ Expression.parse t.text = .error e) ∨
      rest = [] ∧ ∃ (subs : List Substitution) (rewritten : String),
        Recorded (fun _ _ ↦ True) rolled subs ∧
        Text.Replaced 0 text.toList (subEdits subs) rewritten.toList ∧
        Expression.parse rewritten = .error e)

private theorem rolledInPart_of_parse {text : String} {c c' : Context (Counted σ)} {e : ParseError}
    (h : (parse text).run c = (.error (.parse e), c')) : RolledInPart text e c c' := by
  unfold parse at h
  rw [run_bind] at h
  split at h
  · next r c₁ resolved =>
    obtain ⟨⟨recorded, written⟩, draws⟩ :=
      spends_resolveNested (accounts_draws c.source.draws) text 0 c r c₁ rfl resolved
    obtain ⟨news, length, digits, edits⟩ := exists_numerals recorded
    have replaced : Text.Replaced 0 text.toList (subEdits r.2) r.1.toList := by
      rw [written, String.toList_ofList, edits]
      exact replaced_splice length digits
    obtain ⟨failed, rfl⟩ := failure_of_ofParse (fun _ ↦ .pure _) h
    refine ⟨nestedTerms text.toList, [], (List.append_nil _).symm, read_of_recorded recorded,
      by rw [draws, Nat.zero_add], fun none ↦ ?_, .inr ⟨rfl, r.2, r.1, recorded, replaced, failed⟩⟩
    rw [run_resolveNested_of_nil none] at resolved
    exact (congrArg Prod.snd resolved).symm
  · next why c₁ resolved =>
    cases h
    unfold resolveNested at resolved
    rw [run_bind] at resolved
    split at resolved
    · exact nomatch congrArg Prod.fst resolved
    · next why c₁ rolled =>
      cases resolved
      obtain ⟨rolled, t, more, terms, failed, all, draws, unchanged⟩ :=
        failure_of_mapM (fun _ ht ↦ ht) rolled
      exact ⟨rolled, t :: more, terms, all, draws, unchanged, .inl ⟨t, more, rfl, failed⟩⟩

/-- Rolling an expression reads nothing more than the expression. -/
private theorem run_roll_iff {text : String} {c c' : Context σ} {e : ParseError} :
    (roll text).run c = (.error (.parse e), c') ↔
      (parse text).run c = (.error (.parse e), c') := by
  constructor
  · intro h
    unfold roll at h
    rw [run_bind] at h
    split at h
    · next spec c₁ read =>
      have safe : ParseSafe (score text spec : Rolling σ _) :=
        (parseSafe_evaluate spec).bind fun _ ↦ .pure _
      exact absurd h (safe c₁ e c')
    · next why c₁ read =>
      cases h
      exact read
  · exact fun h ↦ run_bind_of_error h

/-- An expression that is not read by rolling has been rolled in part. Rolling, throwing and
sampling it fail in the same way and with the same draws. -/
theorem parse_failure (text : String) (c c' : Context (Counted σ)) (e : ParseError) :
    ((roll text).run c = (.error (.parse e), c') ↔ (parse text).run c = (.error (.parse e), c')) ∧
    ((parse text).run c = (.error (.parse e), c') →
      Throw.run text c = (.bad ("Bad roll: " ++ e.message), c') ∧
      (∀ others, (Analysis.monteCarlo text (others + 1)).run c = (.error (.parse e), c')) ∧
      RolledInPart text e c c') := by
  refine ⟨run_roll_iff, fun h ↦ ⟨?_, fun others ↦ run_bind_of_error h, rolledInPart_of_parse h⟩⟩
  rw [Throw.run, run_roll_iff.mpr h]
  rfl

private def counter : Context (Counted Source) := Context.new {} ⟨Source.step 1 1, 0⟩

/-- A nested term is rolled before the next one, which has too many sides, is not read. -/
theorem parse_failure_tooManySides :
    ∃ c', (parse "1d20+1d4=+1d101").run counter =
        (.error (.parse ⟨.tooManyFaces, ⟨2, 5⟩, "101"⟩), c') ∧ c'.source.draws = 1 ∧
      (roll "1d20+1d4=+1d101").run counter =
        (.error (.parse ⟨.tooManyFaces, ⟨2, 5⟩, "101"⟩), c') ∧
      RolledInPart "1d20+1d4=+1d101" ⟨.tooManyFaces, ⟨2, 5⟩, "101"⟩ counter c' := by
  obtain ⟨c', run, draws⟩ := exists_failure
    (r := (parse "1d20+1d4=+1d101").run counter) (f := fun c ↦ c.source.draws) (b := 1)
    (e := .parse ⟨.tooManyFaces, ⟨2, 5⟩, "101"⟩) (by decide +kernel) (by decide +kernel)
  obtain ⟨rolls, fails⟩ := parse_failure _ counter c' _
  exact ⟨c', run, draws, rolls.mpr run, (fails run).2.2⟩

/-- An expression can be rolled in part before it is not read: a word after it is seen only when the
nested die has been rolled. -/
theorem not_forall_draws_eq_of_parse_failure :
    ¬∀ (text : String) (c c' : Context (Counted Source)) (e : ParseError),
      (parse text).run c = (.error (.parse e), c') → c'.source.draws = c.source.draws := by
  intro all
  obtain ⟨c', run, draws⟩ := exists_failure
    (r := (parse "1d20+1d4 hello").run counter) (f := fun c ↦ c.source.draws) (b := 1)
    (e := .parse ⟨.unrecognizedText [], ⟨7, 8⟩, "h"⟩) (by decide +kernel) (by decide +kernel)
  have none := all "1d20+1d4 hello" counter c' _ run
  rw [draws] at none
  exact absurd none Nat.one_ne_zero

end Rolling

end DicePool
