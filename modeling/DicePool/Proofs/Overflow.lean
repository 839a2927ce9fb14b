import DicePool.Proofs.Overflow.Roll
import DicePool.Proofs.WellFormed

/-!
# What is read does not overflow

Unless the least integer is a face, the numbers that are read are bounded, and have a common
denominator once they are boosted. Within the default budget, and in every exact analysis, what they
come to therefore fits, and nothing wraps around.
-/

namespace DicePool

/-- Without the least integer, the faces that can be written show integers of bounded magnitude; a
label counts as zero. -/
theorem FaceSet.Small.exists_value {faces : FaceSet} (h : faces.Small) {answer : Nat}
    (most : answer ≤ faces.size) : ∃ k : Int, faces.value answer = k ∧ k.natAbs ≤ 1000000 := by
  cases faces with
  | range sides valid =>
    have few : sides ≤ 100 := h
    have within : answer ≤ sides := most
    have shown : (range sides valid).value answer = (answer : Value) :=
      congrArg Nat.cast (shown_of_lt (by omega))
    exact ⟨answer, shown.trans (Int.cast_natCast answer).symm, by omega⟩
  | list faces valid =>
    have listed : (list faces valid).face answer ∈ faces := List.get_mem faces _
    unfold value
    cases hf : (list faces valid).face answer with
    | number v =>
      rw [hf] at listed
      exact h v listed
    | label s => exact ⟨0, Int.cast_zero.symm, Nat.zero_le _⟩

/-- A bounded boost that does not divide by zero is exact on integers of bounded magnitude, and
gives them a common denominator. -/
theorem Boost.exists_light {b : Boost} (total : b.Total) (least : 0 ≤ b.magnitude)
    (most : b.magnitude ≤ 1000000) :
    ∃ d, 0 < d ∧ d ≤ 1000000 ∧ ∀ k : Int, k.natAbs ≤ 1000000 →
      b.apply k = b.exactly k ∧ Light d (1000000 * 1000000) [b.exactly k] := by
  obtain ⟨operator, magnitude⟩ := b
  simp only at least most
  have both (k : Int) (small : k.natAbs ≤ 1000000) :
      Light 1 (1000000 * 1000000) [(k : Value), (magnitude : Value)] :=
    ((Light.intCast 1 k).append (.intCast 1 magnitude)).mono (by omega)
  have within : 1000000 * 1000000 < 2 ^ 63 := by decide
  -- sums are exact where both numbers are light, products and quotients where they fit
  cases operator with
  | add =>
    refine ⟨1, Nat.one_pos, by decide, fun k small ↦ ?_⟩
    exact ⟨(both k small).plus_eq Nat.one_pos within, (both k small).merge⟩
  | subtract =>
    refine ⟨1, Nat.one_pos, by decide, fun k small ↦ ?_⟩
    exact (both k small).minus_eq Nat.one_pos within
  | multiply =>
    refine ⟨1, Nat.one_pos, by decide, fun k small ↦ ?_⟩
    have product : Boost.exactly ⟨.multiply, magnitude⟩ k = ((k * magnitude : Int) : Value) :=
      (Int.cast_mul k magnitude).symm
    have bound : (k * magnitude).natAbs ≤ 1000000 * 1000000 := by
      rw [Int.natAbs_mul]
      exact Nat.mul_le_mul small (by omega)
    have light : Light 1 (1000000 * 1000000) [Boost.exactly ⟨.multiply, magnitude⟩ k] :=
      product ▸ (Light.intCast 1 (k * magnitude)).mono (by omega)
    have fits := light.fits_single ⟨Nat.one_pos, by decide, within⟩
    exact ⟨Value.times_eq fits.narrow, light⟩
  | divide =>
    obtain ⟨d, rfl⟩ := Int.eq_ofNat_of_zero_le least
    have pos : 0 < d := by
      apply Nat.pos_of_ne_zero
      rintro rfl
      exact total ⟨rfl, rfl⟩
    refine ⟨d, pos, by omega, fun k small ↦ ?_⟩
    have parts : Boost.exactly ⟨.divide, d⟩ k * (d : Value) = k :=
      div_mul_cancel₀ _ (Nat.cast_ne_zero.mpr pos.ne')
    have light : Light d (1000000 * 1000000) [Boost.exactly ⟨.divide, d⟩ k] :=
      (Light.of_mul_eq parts).mono (by omega)
    have fits := light.fits_single ⟨pos, by omega, within⟩
    exact ⟨Value.dividedBy_eq fits.narrow, light⟩

/-- A well-formed specification is moderate if the least integer is not a face. -/
theorem Spec.WellFormed.exists_moderate {spec : Spec} (h : spec.WellFormed)
    (literal : spec.faces.Literal) : ∃ d, spec.Moderate d := by
  have boosts : spec.modifiers.boost.Total ∧ 0 ≤ spec.modifiers.boost.magnitude ∧
      spec.modifiers.boost.magnitude ≤ 1000000 := by
    cases hn : spec.isNumeric with
    | true =>
      obtain ⟨b, hb, least, most, total⟩ := h.boost hn
      rw [Modifiers.boost, hb, Option.getD_some]
      exact ⟨total, least, most⟩
    | false =>
      obtain ⟨a, only⟩ := h.labelled hn
      rw [only]
      exact ⟨fun zero ↦ Arithmetic.noConfusion zero.1, Int.le_refl 0, Int.natCast_nonneg 1000000⟩
  obtain ⟨total, least, most⟩ := boosts
  obtain ⟨d, pos, coarse, light⟩ := Boost.exists_light total least most
  obtain ⟨a, ha, small⟩ := h.adjust
  have few : spec.count ≤ 200 := h.count.2
  have faces (answer : Nat) (within : answer ≤ spec.faces.size) :=
    (h.faces.small literal).exists_value within
  have boosted (answer : Nat) (within : answer ≤ spec.faces.size) :
      spec.boosted answer = spec.modifiers.boost.exactly (spec.faces.value answer) ∧
        Light d (1000000 * 1000000) [spec.boosted answer] := by
    obtain ⟨k, value, bounded⟩ := faces answer within
    obtain ⟨exact, weighs⟩ := light k bounded
    rw [Spec.boosted, value]
    exact ⟨exact, exact ▸ weighs⟩
  refine ⟨d, pos, coarse, by omega, fun answer _ within ↦ faces answer within,
    fun answer _ within ↦ (boosted answer within).1,
    fun answer _ within ↦ (boosted answer within).2, ?_⟩
  rw [Modifiers.adjustment, ha, Option.getD_some]
  exact small

/-- What is read without the least integer on its faces is moderate. -/
private theorem exists_moderate_of_parse {text : String} {spec : Spec}
    (h : Expression.parse text = .ok { spec with substitutions := [] })
    (literal : spec.faces.Literal) : ∃ d, spec.Moderate d := by
  have wellFormed : spec.WellFormed := Spec.wellFormed_of_bounded (Spec.bounded_of_parse h)
  exact wellFormed.exists_moderate literal

/-- Every outcome of an exact analysis fits. -/
theorem Analysis.fits_of_outcome {spec : Spec} {d : Nat} (h : spec.Moderate d)
    (some : 0 < spec.count) {limits : Limits} {analysis : Analysis}
    (analysed : exact spec limits = .ok analysis) {v : Value}
    (hv : v ∈ Table.keys analysis.distribution.outcomes) : v.Fits := by
  obtain ⟨t, made⟩ := isExact_of_ok some analysed
  obtain ⟨x, hx, rfl⟩ := (made.mem_keys_iff v).mp hv
  have within := within_of_mem_rolls hx
  have few : (List.ofFn x).length ≤ 10000 := List.length_ofFn.le.trans h.count
  have light := (h.boosted_light within).subperm (spec.modifiers.filterPool_subperm _)
  obtain ⟨exact, fits⟩ := h.fits_adjusted light (h.bearable few)
  rwa [← exact] at fits

/-- What is read without the least integer on its faces does not wrap around: no analysis of it
does, and what a fair roller rolls within the default budget can be added up in any order and
grouping. -/
theorem unwrapped_of_parse {text : String} {spec : Spec}
    (h : Expression.parse text = .ok { spec with substitutions := [] })
    (literal : spec.faces.Literal) :
    spec.Unwrapped ∧ ∀ (σ : Type) [Roller σ] (c c' : Context σ) (rows : List (List Value)),
      Roller.Fair c.source → c.limits.rolls ≤ ({} : Limits).rolls →
      Rolling.Falls spec c.refilled rows c' → Addable (spec.addends rows) := by
  obtain ⟨d, moderate⟩ := exists_moderate_of_parse h literal
  exact ⟨moderate.unwrapped, fun σ _ c c' rows fair budget falls ↦
    Rolling.addable_of_falls moderate fair budget falls⟩

/-- What is read from a text without the least integer on its faces does not overflow, with or
without substitutions. Within the default budget, a fair roller takes no trap that checks each value
and each sum on the way to the total in exact arithmetic; all values that are listed or that count
fit, some of these have their exact sum, which fits, and so does the total. All outcomes of an exact
analysis fit under any limits. -/
theorem fits_of_parse (text : String) (spec : Spec)
    (h : Expression.parse text = .ok { spec with substitutions := [] })
    (literal : spec.faces.Literal) :
    (∀ (σ : Type) [Roller σ] (c : Context σ), Roller.Fair c.source →
      c.limits.rolls ≤ ({} : Limits).rolls →
      (∀ trap : Rolling σ Value,
        (Rolling.checkedTotal trap spec).run c = (Rolling.total spec).run c) ∧
      ∀ o c', (Rolling.evaluate spec).run c = (.ok o, c') →
        (∀ f ∈ o.natural ++ o.modified, ∀ v ∈ f.number?, Value.Fits v) ∧
        (∀ part : List Value, part.Subperm (o.modified.filterMap Face.number?) →
          Value.sum part = part.sum ∧ part.sum.Fits) ∧
        (o.total spec).Fits) ∧
    ∀ limits analysis, Analysis.exact spec limits = .ok analysis →
      ∀ v ∈ Table.keys analysis.distribution.outcomes, Value.Fits v := by
  obtain ⟨d, moderate⟩ := exists_moderate_of_parse h literal
  constructor
  · intro σ _ c fair budget
    refine ⟨fun trap ↦ Rolling.run_checkedTotal trap moderate fair budget, fun o c' run ↦ ?_⟩
    refine ⟨fun f hf v hv ↦ ?_, fun part some ↦ Rolling.fits_sum moderate fair budget run some,
      Rolling.fits_total moderate fair budget run⟩
    obtain listed | counted := List.mem_append.mp hf
    · exact Rolling.fits_of_mem_natural moderate fair budget run listed hv
    · exact Rolling.fits_of_mem_modified moderate fair budget run counted hv
  · intro limits analysis analysed v hv
    have some : 1 ≤ spec.count := (Spec.bounded_of_parse h).count.1
    exact Analysis.fits_of_outcome moderate some analysed hv

private def quarters (count : Nat) (explode? : Option Explosion) : Spec where
  count
  faces := .cube
  modifiers :=
    { boost? := some ⟨.divide, 4⟩, adjust? := some 0, success? := some ⟨.greaterEqual, 6⟩,
      explode? }

/-- Quarters of a die that explodes from four on and penetrates, and those of two dice. -/
theorem fits_of_parse_quarters :
    (∃ spec o c', Expression.parse "1d6/4xp>=1" = .ok spec ∧
      (Rolling.evaluate spec).run (Context.new {} (Source.step 5 1)) = (.ok o, c') ∧
      o.modified = [.number (5 / 4), .number (1 / 2), .number (-3 / 4)] ∧
      (∀ f ∈ o.natural ++ o.modified, ∀ v ∈ f.number?, Value.Fits v) ∧ (o.total spec).Fits) ∧
    ∃ spec analysis, Expression.parse "2d6/4" = .ok spec ∧
      Analysis.exact spec {} = .ok analysis ∧
      ∀ v ∈ Table.keys analysis.distribution.outcomes, Value.Fits v := by
  constructor
  · have read : Expression.parse "1d6/4xp>=1" =
        .ok (quarters 1 (some ⟨⟨.greaterEqual, 1⟩, false, true⟩)) := by decide +kernel
    obtain ⟨rolls, _⟩ := fits_of_parse _ (quarters 1 (some ⟨⟨.greaterEqual, 1⟩, false, true⟩)) read
      trivial
    obtain ⟨o, c', run, modified⟩ := Rolling.exists_result
      (r := (Rolling.evaluate (quarters 1 (some ⟨⟨.greaterEqual, 1⟩, false, true⟩))).run
        (Context.new {} (Source.step 5 1)))
      (f := Outcome.modified) (b := [.number (5 / 4), .number (1 / 2), .number (-3 / 4)])
      (by decide +kernel)
    have fair : Roller.Fair (Source.step 5 1) := Roller.fair_step 5 1
    obtain ⟨_, all⟩ := rolls Source (Context.new {} (Source.step 5 1)) fair (by decide)
    obtain ⟨values, _, total⟩ := all o c' run
    exact ⟨_, o, c', read, run, modified, values, total⟩
  · have read : Expression.parse "2d6/4" = .ok (quarters 2 none) := by decide +kernel
    obtain ⟨_, outcomes⟩ := fits_of_parse _ (quarters 2 none) read trivial
    obtain ⟨analysis, analysed⟩ : ∃ analysis, Analysis.exact (quarters 2 none) {} = .ok analysis :=
      Analysis.exists_exact_ok ⟨rfl, rfl⟩ rfl (by decide) nofun
    exact ⟨_, analysis, read, analysed, outcomes {} analysis analysed⟩

private def leastPair : Spec where
  count := 2
  faces := .least
  modifiers :=
    { boost? := some ⟨.add, 0⟩, adjust? := some 0,
      success? := some ⟨.greaterEqual, -9223372036854775808⟩ }

/-- Two dice that show the least integer do not fit, and wrap around to a total of zero. -/
theorem not_forall_fits_of_parse :
    ∃ o c', Expression.parse "2d{-9223372036854775808}" = .ok leastPair ∧
      (Rolling.evaluate leastPair).run (Context.new {} (Source.step 1 1)) = (.ok o, c') ∧
      o.natural = [.number (-9223372036854775808), .number (-9223372036854775808)] ∧
      ¬Value.Fits (-9223372036854775808) ∧ o.total leastPair = 0 := by
  obtain ⟨o, c', run, shown⟩ := Rolling.exists_result
    (r := (Rolling.evaluate leastPair).run (Context.new {} (Source.step 1 1)))
    (f := fun o ↦ (o.natural, o.total leastPair))
    (b := ([.number (-9223372036854775808), .number (-9223372036854775808)], 0)) (by decide +kernel)
  obtain ⟨natural, total⟩ := Prod.mk.inj shown
  exact ⟨o, c', by decide +kernel, run, natural, by decide, total⟩

end DicePool
