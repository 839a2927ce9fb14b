import DicePool.Proofs.Analysis.Exact
import Mathlib.Data.Sym.Card

/-!
# When dice have an exact analysis

An exact analysis is refused for an explosion, a reroll or a face that is not a number, in this
order, and for more pools than the limit allows, which are counted if dice are kept or dropped. The
number of pools is computed by a formula before they are visited: it is the number of multisets of
as many boosted faces as there are dice, and the number of visits.
-/

namespace DicePool

namespace Spec

/-- The values that a die can count for. -/
def boostedFaces (spec : Spec) : Finset Value :=
  (Finset.Icc 1 spec.faces.size).image spec.boosted

/-- The number of multisets of as many boosted faces as there are dice. -/
def poolCount (spec : Spec) : Nat := Fintype.card (Sym spec.boostedFaces spec.count)

/-- The first of the reasons for which a specification is refused an exact analysis. -/
def refusal? (spec : Spec) (limits : Limits) : Option Error :=
  if spec.modifiers.contains .explode then some (.unsupportedModifier .explode)
  else if spec.modifiers.contains .reroll then some (.unsupportedModifier .reroll)
  else if ¬spec.isNumeric then some (.nonNumericFaces spec.faces.kind)
  else if spec.modifiers.selects ∧ limits.outcomes < spec.poolCount then
    some (.tooManyOutcomes spec.poolCount limits.outcomes)
  else none

/-- Dice that are not refused are drawn once, show numbers, and have no more pools to keep or drop
from than the limit allows. -/
theorem refusal?_eq_none_iff {spec : Spec} {limits : Limits} : spec.refusal? limits = none ↔
    spec.Plain ∧ spec.isNumeric = true ∧
      (spec.modifiers.selects = true → spec.poolCount ≤ limits.outcomes) := by
  rw [plain_iff]
  unfold refusal?
  cases spec.modifiers.contains .explode <;> cases spec.modifiers.contains .reroll <;>
    cases spec.isNumeric <;> simp

/-- No specification is refused for want of samples. -/
theorem refusal?_ne_noSamples (spec : Spec) (limits : Limits) :
    spec.refusal? limits ≠ some .noSamples := by
  unfold refusal?
  split_ifs <;> nofun

/-- A die has a face, which counts for a value. -/
theorem card_boostedFaces_pos (spec : Spec) : 0 < spec.boostedFaces.card := by
  apply Finset.card_pos.mpr
  exact ⟨spec.boosted 1, Finset.mem_image_of_mem _
    (Finset.mem_Icc.mpr ⟨Nat.le_refl 1, spec.faces.size_pos⟩)⟩

end Spec

namespace Analysis

variable {spec : Spec} {numbers : List Value}

/-- One die is tallied with its boosted faces. -/
theorem mem_keys_single (hn : spec.faces.numbers? = some numbers) (v : Value) :
    v ∈ Table.keys (single spec numbers).counts ↔ v ∈ spec.boostedFaces := by
  rw [single, Tally.mem_keys_ofList, map_boosted hn, Spec.boostedFaces, List.mem_map,
    Finset.mem_image]
  constructor
  · rintro ⟨i, hi, rfl⟩
    exact ⟨i + 1, Finset.mem_Icc.mpr ⟨Nat.le_add_left 1 i, List.mem_range.mp hi⟩, rfl⟩
  · rintro ⟨answer, ha, rfl⟩
    obtain ⟨least, most⟩ := Finset.mem_Icc.mp ha
    refine ⟨answer - 1, List.mem_range.mpr (by omega), ?_⟩
    rw [Nat.sub_add_cancel least]

/-- One die is tallied with one entry for each boosted face. -/
theorem length_keys_single (hn : spec.faces.numbers? = some numbers) :
    (Table.keys (single spec numbers).counts).length = spec.boostedFaces.card := by
  have ascending : (Table.keys (single spec numbers).counts).Pairwise (· < ·) :=
    (Tally.wellFormed_ofList _).1
  have faces : (Table.keys (single spec numbers).counts).toFinset = spec.boostedFaces := by
    ext v
    rw [List.mem_toFinset, mem_keys_single hn]
  rw [← faces, List.toFinset_card_of_nodup ascending.nodup]

/-- The pools that are visited are as many as the multisets. -/
theorem length_all_single (hn : spec.faces.numbers? = some numbers) :
    (Pools.all (Table.keys (single spec numbers).counts).length spec.count).length =
      spec.poolCount := by
  rw [length_keys_single hn, Pools.length_all spec.card_boostedFaces_pos, Spec.poolCount,
    Sym.card_sym_eq_multichoose, Fintype.card_coe]

/-- The formula for the number of pools counts the multisets. -/
theorem number_single (hn : spec.faces.numbers? = some numbers) :
    Pools.number (Table.keys (single spec numbers).counts).length spec.count = spec.poolCount := by
  have slots : 0 < (Table.keys (single spec numbers).counts).length := by
    rw [length_keys_single hn]
    exact spec.card_boostedFaces_pos
  rw [Pools.number_eq_length slots, length_all_single hn]

/-- Too many pools to keep or drop from have no exact analysis. -/
theorem exact_of_pools {limits : Limits} (hp : spec.Plain)
    (hn : spec.faces.numbers? = some numbers) (hs : spec.modifiers.selects = true)
    (exceeds : limits.outcomes < spec.poolCount) :
    exact spec limits = .error (.tooManyOutcomes spec.poolCount limits.outcomes) := by
  have refused : tallies spec limits (single spec numbers) =
      .error (.tooManyOutcomes spec.poolCount limits.outcomes) := by
    rw [tallies, if_pos hs, pooled, number_single hn, if_pos exceeds]
  rw [exact_eq_bind hp hn, refused]
  rfl

/-- What is refused has no exact analysis. -/
theorem exact_of_refusal {limits : Limits} {e : Error} (h : spec.refusal? limits = some e) :
    exact spec limits = .error e := by
  unfold Spec.refusal? at h
  split_ifs at h with he hr hn exceeds
  · rw [← Option.some.inj h, exact_of_explode he]
  · rw [← Option.some.inj h, exact_of_reroll (Bool.eq_false_of_not_eq_true he) hr]
  · have plain := Spec.plain_iff.mpr
      ⟨Bool.eq_false_of_not_eq_true he, Bool.eq_false_of_not_eq_true hr⟩
    have numbers := FaceSet.numbers?_of_isNumeric hn
    rw [← Option.some.inj h, exact_of_pools plain numbers exceeds.1 exceeds.2]
  · rw [← Option.some.inj h, exact_of_labels (Bool.eq_false_of_not_eq_true he)
      (Bool.eq_false_of_not_eq_true hr) (Bool.eq_false_of_not_eq_true hn)]

/-- At least one die that is not refused has an exact analysis. -/
theorem exists_exact_of_refusal {limits : Limits} (hc : 1 ≤ spec.count)
    (h : spec.refusal? limits = none) : ∃ analysis, exact spec limits = .ok analysis := by
  obtain ⟨plain, numeric, within⟩ := Spec.refusal?_eq_none_iff.mp h
  have numbers := FaceSet.numbers?_of_isNumeric numeric
  apply exists_exact_ok plain numbers hc
  intro hs
  rw [number_single numbers]
  exact within hs

/-- At least one die has no exact analysis if it explodes, else if it is rerolled, else if its faces
are not all numbers, else if dice are kept or dropped and there are more multisets of boosted faces
than the limit allows; otherwise it has one, so that samples are never wanting. If the faces are
numbers, visiting the pools visits as many lists of counts as there are multisets. -/
theorem exact_verdict (spec : Spec) (hc : 1 ≤ spec.count) (limits : Limits) :
    (∀ e, exact spec limits = .error e ↔ spec.refusal? limits = some e) ∧
    ((∃ analysis, exact spec limits = .ok analysis) ↔ spec.refusal? limits = none) ∧
    exact spec limits ≠ .error .noSamples ∧
    ∀ numbers, spec.faces.numbers? = some numbers →
      ∃ visits : List (List Nat), visits.length = spec.poolCount ∧
        ∀ (β : Type) (visit : β → List Nat → β) (acc : β),
          Pools.fold visit (Table.keys (single spec numbers).counts).length spec.count acc =
            visits.foldl visit acc := by
  have errors (e : Error) : exact spec limits = .error e ↔ spec.refusal? limits = some e := by
    refine ⟨fun failed ↦ ?_, exact_of_refusal⟩
    cases h : spec.refusal? limits with
    | none =>
      obtain ⟨analysis, analysed⟩ := exists_exact_of_refusal hc h
      exact nomatch failed.symm.trans analysed
    | some e' =>
      rw [Except.error.inj (failed.symm.trans (exact_of_refusal h))]
  refine ⟨errors, ⟨fun ⟨analysis, analysed⟩ ↦ ?_, exists_exact_of_refusal hc⟩, fun lacking ↦ ?_,
    fun numbers hn ↦ ?_⟩
  · cases h : spec.refusal? limits with
    | none => rfl
    | some e => exact nomatch analysed.symm.trans (exact_of_refusal h)
  · exact spec.refusal?_ne_noSamples limits ((errors .noSamples).mp lacking)
  · exact ⟨_, length_all_single hn, fun β visit acc ↦ Pools.fold_eq_foldl visit _ _ acc⟩

/-- Two dice with two faces have three pools: they are refused an analysis that keeps the higher one
with a limit of two, and have one with a limit of three. -/
theorem exact_verdict_highestOfTwo : highestOfTwo.poolCount = 3 ∧
    exact highestOfTwo { outcomes := 2 } = .error (.tooManyOutcomes 3 2) ∧
    (∃ analysis, exact highestOfTwo { outcomes := 3 } = .ok analysis) ∧
    ∃ visits : List (List Nat), visits.length = 3 ∧
      ∀ (β : Type) (visit : β → List Nat → β) (acc : β),
        Pools.fold visit 2 2 acc = visits.foldl visit acc := by
  have pools : highestOfTwo.poolCount = 3 := by
    have faces : highestOfTwo.boostedFaces.card = 2 := by decide +kernel
    rw [Spec.poolCount, Sym.card_sym_eq_multichoose, Fintype.card_coe, faces]
    exact Nat.multichoose_two 2
  have exceeds : highestOfTwo.refusal? { outcomes := 2 } = some (.tooManyOutcomes 3 2) := by
    rw [Spec.refusal?, pools]
    decide
  have within : highestOfTwo.refusal? { outcomes := 3 } = none := by
    rw [Spec.refusal?, pools]
    decide
  have slots : (Table.keys (single highestOfTwo [1, 2]).counts).length = 2 := by decide +kernel
  obtain ⟨errors, _, _, visits⟩ := exact_verdict highestOfTwo (by decide) { outcomes := 2 }
  obtain ⟨_, succeeds, _⟩ := exact_verdict highestOfTwo (by decide) { outcomes := 3 }
  have visited := visits [1, 2] rfl
  rw [slots, pools] at visited
  exact ⟨pools, (errors _).mpr exceeds, succeeds.mpr within, visited⟩

end Analysis

end DicePool
