import DicePool.Proofs.Equation.Leftover

/-!
# Splicing rolls into a text

A substitution rolls the terms of a text from left to right on one context, and writes each total in
the place of its term. It ends with the first term that fails, and with what that term has drawn; a
text whose terms are not read is not rolled at all.
-/

namespace DicePool.Equation

open Token Rolling

/-- A total is written as it is if it is a natural number, and in parentheses if it is negative or a
fraction. -/
theorem totalText_eq_iff (v : Value) :
    (totalText v = Value.text v ↔ 0 ≤ v ∧ ∃ n : Int, v = n) ∧
    (v < 0 ∨ (∀ n : Int, v ≠ n) → totalText v = "(" ++ Value.text v ++ ")") := by
  have whole : v.den = 1 ↔ ∃ n : Int, v = n := by
    constructor
    · exact fun one ↦ ⟨v.num, (Rat.coe_int_num_of_den_eq_one one).symm⟩
    · rintro ⟨n, rfl⟩
      exact Rat.den_intCast n
  have enclosed : (v < 0 || !Value.isInteger v) = true ↔ v < 0 ∨ ∀ n : Int, v ≠ n := by
    simp [Value.isInteger, whole]
  have longer : "(" ++ Value.text v ++ ")" ≠ Value.text v := by
    intro same
    have length := congrArg String.length same
    have paren : "(".length = 1 := rfl
    rw [String.length_append, String.length_append, paren] at length
    omega
  rw [totalText]
  split
  · next h =>
    have other : ¬(0 ≤ v ∧ ∃ n : Int, v = n) := by
      rintro ⟨pos, n, same⟩
      rcases enclosed.mp h with negative | fraction
      · exact not_lt.mpr pos negative
      · exact fraction n same
    exact ⟨iff_of_false longer other, fun _ ↦ rfl⟩
  · next h => exact ⟨by simpa using mt enclosed.mpr h, fun other ↦ absurd (enclosed.mpr other) h⟩

/-- What is written in the places of terms is spliced into the text. -/
theorem Finds.exists_replaced {ts : List Token} {found : List Term} (h : Finds ts found) {o : Nat}
    {s : List Char} (scanned : scanFrom 0 o s = ts) {edits : List (Span × List Char)}
    (spans : edits.map Prod.fst = found.map Term.span) : ∃ s', Text.Replaced o s edits s' := by
  induction h generalizing o s edits with
  | nil =>
    obtain rfl := List.map_eq_nil_iff.mp spans
    exact ⟨s, .stay o s⟩
  | @skip t ts found _ _ ih =>
    obtain ⟨before, s, rfl, _, _, span, rest⟩ := scanFrom_eq_cons.mp scanned
    obtain ⟨s', replaced⟩ := ih rest spans
    have stop : t.span.stop = o + Text.byteLength (before ++ t.text) := by
      rw [span, Text.byteLength_append, Nat.add_assoc]
    exact ⟨_, Text.Replaced.append_left _ (stop ▸ replaced)⟩
  | @take used left more t found _ m _ ih =>
    obtain ⟨⟨span, new⟩, edits, rfl, rfl, later⟩ := List.map_eq_cons_iff.mp spans
    obtain ⟨before, after, rfl, _, start, stop, _, rest⟩ :=
      scanFrom_gapless scanned m.gapless m.ne_nil
    obtain ⟨s', replaced⟩ := ih rest later
    rw [start, Nat.add_assoc, ← Text.byteLength_append] at stop
    have place : t.span = ⟨o + Text.byteLength before,
        o + Text.byteLength (before ++ used.flatMap Token.text)⟩ := by rw [← start, ← stop]
    refine ⟨before ++ (new ++ s'), ?_⟩
    rw [List.append_assoc]
    simp only [place]
    exact .write new (stop ▸ replaced)

variable {σ : Type} [Roller σ]

/-- Whether rolls are those of their terms, one after the other from one context to another, each
with the score of its own outcome. -/
inductive RolledInOrder : Context σ → List (Term × Scored) → Context σ → Prop
  | nil (c : Context σ) : RolledInOrder c [] c
  | cons {c c₁ c' : Context σ} {t : Term} {o : Outcome} {rolls : List (Term × Scored)}
    (first : (evaluate t.spec).run c = (.ok o, c₁)) (rest : RolledInOrder c₁ rolls c') :
    RolledInOrder c ((t, o.score t.text t.spec) :: rolls) c'

variable {c c' : Context σ}

/-- Rolls and scores a term. -/
private def rollTerm (t : Term) : Rolling σ (Term × Scored) := return (t, ← score t.text t.spec)

private theorem run_rollTerm_eq_ok_iff {t : Term} {x : Term × Scored} :
    (rollTerm t).run c = (.ok x, c') ↔
      ∃ o, (evaluate t.spec).run c = (.ok o, c') ∧ x = (t, o.score t.text t.spec) := by
  rw [rollTerm, run_bind_pure_eq_ok_iff]
  constructor
  · rintro ⟨_, scored, rfl⟩
    obtain ⟨o, rolled, rfl⟩ := run_bind_pure_eq_ok_iff.mp scored
    exact ⟨o, rolled, rfl⟩
  · rintro ⟨o, rolled, rfl⟩
    exact ⟨_, run_bind_pure_eq_ok_iff.mpr ⟨o, rolled, rfl⟩, rfl⟩

private theorem run_rollTerm_eq_error_iff {t : Term} {e : Error} :
    (rollTerm t).run c = (.error e, c') ↔ (evaluate t.spec).run c = (.error e, c') := by
  rw [rollTerm, run_bind_pure_eq_error_iff]
  exact run_bind_pure_eq_error_iff

private theorem run_rollTerms_eq_ok_iff {found : List Term} {rolls : List (Term × Scored)} :
    (found.mapM rollTerm).run c = (.ok rolls, c') ↔
      RolledInOrder c rolls c' ∧ rolls.map Prod.fst = found := by
  induction found generalizing c rolls with
  | nil =>
    rw [List.mapM_nil, run_pure]
    constructor
    · intro h
      cases h
      exact ⟨.nil _, rfl⟩
    · rintro ⟨rolled, none⟩
      obtain rfl := List.map_eq_nil_iff.mp none
      cases rolled
      rfl
  | cons t found ih =>
    rw [List.mapM_cons, run_bind_eq_ok_iff]
    simp only [run_rollTerm_eq_ok_iff, run_bind_pure_eq_ok_iff, ih]
    constructor
    · rintro ⟨_, c₁, ⟨o, first, rfl⟩, rest, ⟨rolled, rfl⟩, rfl⟩
      exact ⟨.cons first rolled, rfl⟩
    · rintro ⟨rolled, same⟩
      cases rolled with
      | nil => contradiction
      | cons first rest =>
        obtain ⟨rfl, rfl⟩ := List.cons.inj same
        exact ⟨_, _, ⟨_, first, rfl⟩, _, ⟨rest, rfl⟩, rfl⟩

private theorem substitute_eq (text : String) : (substitute text : Rolling σ Rolled) = do
    let found ← ofParse (terms text)
    let rolls ← found.mapM rollTerm
    return ⟨String.ofList (Text.splice text.toList (totalEdits rolls)), rolls⟩ := (rfl)

variable {text : String} {found : List Term}

/-- A substitution ends with the rolls of all terms in order, written in the places of the terms. -/
theorem run_substitute_eq_ok_iff (h : terms text = .ok found) {r : Rolled} :
    (substitute text).run c = (.ok r, c') ↔
      RolledInOrder c r.rolls c' ∧ r.rolls.map Prod.fst = found ∧
        Text.Replaced 0 text.toList (totalEdits r.rolls) r.text.toList := by
  rw [substitute_eq, h, run_bind_of_ok (run_ofParse_ok found c), run_bind_pure_eq_ok_iff]
  simp only [run_rollTerms_eq_ok_iff]
  constructor
  · rintro ⟨rolls, ⟨rolled, same⟩, rfl⟩
    have spans : (totalEdits rolls).map Prod.fst = found.map Term.span := by
      simp [totalEdits, ← same]
    obtain ⟨s', replaced⟩ := (finds_of_termsFrom h).exists_replaced rfl spans
    have spliced : Text.splice text.toList (totalEdits rolls) = s' := replaced.spliceFrom_eq
    refine ⟨rolled, same, ?_⟩
    rw [String.toList_ofList]
    exact spliced ▸ replaced
  · rintro ⟨rolled, same, replaced⟩
    have spliced : Text.splice text.toList (totalEdits r.rolls) = r.text.toList :=
      replaced.spliceFrom_eq
    refine ⟨r.rolls, ⟨rolled, same⟩, ?_⟩
    rw [spliced, String.ofList_toList]

/-- A substitution fails where the first of its terms does, after the rolls of those before it. -/
theorem run_substitute_eq_error_iff (h : terms text = .ok found) {e : Error} :
    (substitute text).run c = (.error e, c') ↔
      ∃ rolls t more c₁, found = rolls.map Prod.fst ++ t :: more ∧ RolledInOrder c rolls c₁ ∧
        (evaluate t.spec).run c₁ = (.error e, c') := by
  rw [substitute_eq, h, run_bind_of_ok (run_ofParse_ok found c), run_bind_pure_eq_error_iff,
    run_mapM_eq_error_iff]
  simp only [run_rollTerms_eq_ok_iff, run_rollTerm_eq_error_iff]
  constructor
  · rintro ⟨_, t, more, rolls, c₁, rfl, ⟨rolled, rfl⟩, fails⟩
    exact ⟨rolls, t, more, c₁, rfl, rolled, fails⟩
  · rintro ⟨rolls, t, more, c₁, rfl, rolled, fails⟩
    exact ⟨_, t, more, rolls, c₁, rfl, ⟨rolled, rfl⟩, fails⟩

/-- A substitution splices the rolls of its terms into the text, in order. If the terms are not
read, nothing is rolled. Else each term is rolled on what the ones before it leave, until one fails,
and the totals are written in the places of the terms, while all other characters stay. -/
theorem substitute_splices_rolls (text : String) (c : Context σ) :
    (∀ e, terms text = .error e → (substitute text).run c = (.error (.parse e), c)) ∧
    (∀ found, terms text = .ok found →
      (∀ r c', (substitute text).run c = (.ok r, c') ↔
        RolledInOrder c r.rolls c' ∧ r.rolls.map Prod.fst = found ∧
          Text.Replaced 0 text.toList (totalEdits r.rolls) r.text.toList) ∧
      ∀ e c', (substitute text).run c = (.error e, c') ↔
        ∃ rolls t more c₁, found = rolls.map Prod.fst ++ t :: more ∧ RolledInOrder c rolls c₁ ∧
          (evaluate t.spec).run c₁ = (.error e, c')) ∧
    ∀ v, (totalText v = Value.text v ↔ 0 ≤ v ∧ ∃ n : Int, v = n) ∧
      (v < 0 ∨ (∀ n : Int, v ≠ n) → totalText v = "(" ++ Value.text v ++ ")") := by
  refine ⟨fun e h ↦ ?_, fun found h ↦ ⟨fun r c' ↦ run_substitute_eq_ok_iff h,
    fun e c' ↦ run_substitute_eq_error_iff h⟩, totalText_eq_iff⟩
  rw [substitute_eq, h]
  exact run_bind_of_error (run_ofParse_error e c)

/-- A negative total is put in parentheses, behind an accented letter as elsewhere. With a budget of
one, the second term fails after the first one is rolled. -/
theorem substitute_splices_rolls_accented :
    (∃ r c', (substitute "é 1d6-9 + 2d4").run (Context.new {} (Source.step 1 1)) = (.ok r, c') ∧
      r.text = "é (-8) + 5" ∧ RolledInOrder (Context.new {} (Source.step 1 1)) r.rolls c' ∧
      Text.Replaced 0 "é 1d6-9 + 2d4".toList (totalEdits r.rolls) "é (-8) + 5".toList) ∧
    ∃ found e c' rolls t more c₁, terms "1d6 + 2d4" = .ok found ∧
      (substitute "1d6 + 2d4").run (Context.new { rolls := 1 } (Source.step 1 1)) =
        (.error e, c') ∧ found = rolls.map Prod.fst ++ t :: more ∧
      RolledInOrder (Context.new { rolls := 1 } (Source.step 1 1)) rolls c₁ ∧
      (evaluate t.spec).run c₁ = (.error e, c') := by
  constructor
  · obtain ⟨found, read⟩ : ∃ found, terms "é 1d6-9 + 2d4" = .ok found := ⟨_, rfl⟩
    obtain ⟨r, c', run, text⟩ := exists_result
      (r := (substitute "é 1d6-9 + 2d4").run (Context.new {} (Source.step 1 1)))
      (f := Rolled.text) (b := "é (-8) + 5") (by decide +kernel)
    obtain ⟨rolled, _, replaced⟩ :=
      (((substitute_splices_rolls "é 1d6-9 + 2d4" _).2.1 found read).1 r c').mp run
    exact ⟨r, c', run, text, rolled, text ▸ replaced⟩
  · obtain ⟨found, read⟩ : ∃ found, terms "1d6 + 2d4" = .ok found := ⟨_, rfl⟩
    obtain ⟨c', run, _⟩ := exists_failure
      (r := (substitute "1d6 + 2d4").run (Context.new { rolls := 1 } (Source.step 1 1)))
      (e := .tooManyRolls 1) (f := fun _ ↦ ()) (by decide +kernel) rfl
    obtain ⟨rolls, t, more, c₁, same, rolled, fails⟩ :=
      (((substitute_splices_rolls "1d6 + 2d4" _).2.1 found read).2 _ c').mp run
    exact ⟨found, _, c', rolls, t, more, c₁, read, run, same, rolled, fails⟩

end DicePool.Equation
