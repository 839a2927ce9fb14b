import DicePool.Proofs.Analysis.Exact

/-!
# The highest and the lowest die

A single die that is kept is the highest or the lowest of a roll. It stays within a bound exactly if
all dice do, and since dice fall independently the share of such rolls is a power of the share of
faces within the bound.
-/

namespace DicePool

/-- The one value that is kept of a pool stands before all of its values in the order of the
selection. -/
theorem Selection.exists_keep_one (layer : Layer) {values : List Value} (h : values ≠ []) :
    ∃ x ∈ values, Selection.keep ⟨layer, 1⟩ values = [x] ∧ ∀ y ∈ values, layer.Orders [x, y] := by
  have perm := layer.sorted_perm values
  have ordered := layer.orders_sorted values
  unfold keep
  cases hs : layer.sorted values with
  | nil =>
    rw [hs] at perm
    exact absurd perm.symm.eq_nil h
  | cons x rest =>
    rw [hs] at perm ordered
    refine ⟨x, perm.subset List.mem_cons_self, rfl, fun y hy ↦ ?_⟩
    rcases List.mem_cons.mp (perm.symm.subset hy) with rfl | hy
    · cases layer <;> exact List.pairwise_pair.mpr le_rfl
    · exact ordered.sublist ((List.singleton_sublist.mpr hy).cons_cons x)

/-- The highest value of a pool is within an upper bound exactly if all values are. -/
theorem sum_keep_highest_le {values : List Value} (h : values ≠ [])
    (narrow : ∀ y ∈ values, y.Narrow) (v : Value) :
    Value.sum (Selection.keep ⟨.high, 1⟩ values) ≤ v ↔ ∀ y ∈ values, y ≤ v := by
  obtain ⟨x, hx, kept, highest⟩ := Selection.exists_keep_one .high h
  rw [kept, Value.sum_singleton (narrow x hx)]
  exact ⟨fun le y hy ↦ (List.pairwise_pair.mp (highest y hy)).trans le, fun all ↦ all x hx⟩

/-- The lowest value of a pool is beyond a lower bound exactly if all values are. -/
theorem lt_sum_keep_lowest {values : List Value} (h : values ≠ [])
    (narrow : ∀ y ∈ values, y.Narrow) (v : Value) :
    v < Value.sum (Selection.keep ⟨.low, 1⟩ values) ↔ ∀ y ∈ values, v < y := by
  obtain ⟨x, hx, kept, lowest⟩ := Selection.exists_keep_one .low h
  rw [kept, Value.sum_singleton (narrow x hx)]
  exact ⟨fun lt y hy ↦ lt.trans_le (List.pairwise_pair.mp (lowest y hy)), fun all ↦ all x hx⟩

namespace Analysis

variable {spec : Spec} {numbers : List Value} {limits : Limits} {analysis : Analysis}

/-- As many answers bring up a boosted face of a kind as there are such faces. -/
theorem card_filter_boosted (hn : spec.faces.numbers? = some numbers) (p : Value → Bool) :
    ((Finset.Icc 1 spec.faces.size).filter fun a ↦ p (spec.boosted a) = true).card =
      (numbers.map spec.modifiers.boost.apply).countP p := by
  rw [← weigh_sum_single, ← series_single hn, single, Tally.series_ofList, weigh_sum_map_single]

/-- The share of the vectors of which all boosted numbers are of a kind is the power of the share of
such faces. -/
theorem frequency_forall (hn : spec.faces.numbers? = some numbers) (p : Value → Bool) :
    (frequency spec fun answers ↦ ∀ v ∈ answers.map spec.boosted, p v = true) =
      (((numbers.map spec.modifiers.boost.apply).countP p : Rat) / numbers.length) ^
        spec.count := by
  classical
  have boxed : ((rolls spec).filter fun x ↦
        ∀ v ∈ (List.ofFn x).map spec.boosted, p v = true) =
      Fintype.piFinset fun _ ↦
        (Finset.Icc 1 spec.faces.size).filter fun a ↦ p (spec.boosted a) = true := by
    ext x
    simp only [rolls, Finset.mem_filter, Fintype.mem_piFinset, List.map_ofFn, List.forall_mem_ofFn_iff,
      Function.comp_apply, forall_and]
  have count : (((rolls spec).filter fun x ↦
        ∀ v ∈ (List.ofFn x).map spec.boosted, p v = true).card : Rat) =
      ((numbers.map spec.modifiers.boost.apply).countP p : Rat) ^ spec.count := by
    rw [boxed, Fintype.card_piFinset_const, card_filter_boosted hn, Nat.cast_pow]
  rw [frequency, div_pow, FaceSet.length_of_numbers? hn, ← count]
  congr

/-- A single die that is kept makes the total of a roll without an adjustment. -/
private theorem totalOf_keep_one {layer : Layer} (hk : spec.modifiers.keep? = some ⟨layer, 1⟩)
    (hd : spec.modifiers.drop? = none) (ha : spec.modifiers.adjustment = 0) (answers : List Nat) :
    spec.totalOf answers = Value.sum (Selection.keep ⟨layer, 1⟩ (answers.map spec.boosted)) := by
  rw [Spec.totalOf, ha, Int.cast_zero, Value.plus_zero (Value.narrow_sum _), Spec.kept,
    Modifiers.filterPool, hk, hd]
  rfl

/-- Totals of a kind that the kept value is of exactly if all values are have as their mass the
power of the share of the faces of that kind. -/
private theorem massWhere_keep_one (hc : 1 ≤ spec.count) (hd : spec.modifiers.drop? = none)
    (ha : spec.modifiers.adjustment = 0) (hn : spec.faces.numbers? = some numbers)
    (h : exact spec limits = .ok analysis) {layer : Layer}
    (hk : spec.modifiers.keep? = some ⟨layer, 1⟩) {p : Value → Bool}
    (passes : ∀ {values : List Value}, values ≠ [] → (∀ v ∈ values, v.Narrow) →
      (p (Value.sum (Selection.keep ⟨layer, 1⟩ values)) = true ↔ ∀ v ∈ values, p v = true)) :
    analysis.distribution.massWhere p =
      (((numbers.map spec.modifiers.boost.apply).countP p : Rat) / numbers.length) ^
        spec.count := by
  obtain ⟨t, made⟩ := isExact_of_ok hc h
  rw [made.massWhere, ← frequency_forall hn]
  apply frequency_congr
  intro answers hl _
  have rolled : answers.map spec.boosted ≠ [] := by
    apply List.ne_nil_of_length_pos
    rw [List.length_map, hl]
    exact hc
  have narrow : ∀ v ∈ answers.map spec.boosted, v.Narrow :=
    List.forall_mem_map.mpr fun a _ ↦ spec.narrow_boosted a
  rw [totalOf_keep_one hk hd ha]
  exact passes rolled narrow

/-- The totals of the highest die within a bound have as their mass the power of the share of the
faces within it. -/
theorem massWhere_highest_le (hc : 1 ≤ spec.count) (hd : spec.modifiers.drop? = none)
    (ha : spec.modifiers.adjustment = 0) (hn : spec.faces.numbers? = some numbers)
    (h : exact spec limits = .ok analysis) (hk : spec.modifiers.keep? = some ⟨.high, 1⟩)
    (v : Value) : analysis.distribution.massWhere (· ≤ v) =
      (((numbers.map spec.modifiers.boost.apply).countP (· ≤ v) : Rat) / numbers.length) ^
        spec.count := by
  apply massWhere_keep_one hc hd ha hn h hk
  intro values some narrow
  simp only [decide_eq_true_eq]
  exact sum_keep_highest_le some narrow v

/-- Where at least one die is rolled, nothing is dropped, and nothing is added to the total, an
analysis of the highest die gives a power of the share of the faces within a bound the mass of the
totals within it; one of the lowest die gives a power of the share of the other faces the mass of
the totals beyond the bound. -/
theorem exact_extreme (hc : 1 ≤ spec.count) (hd : spec.modifiers.drop? = none)
    (ha : spec.modifiers.adjustment = 0) (hn : spec.faces.numbers? = some numbers)
    (h : exact spec limits = .ok analysis) (v : Value) :
    (spec.modifiers.keep? = some ⟨.high, 1⟩ →
      analysis.distribution.massWhere (· ≤ v) =
        (((numbers.map spec.modifiers.boost.apply).countP (· ≤ v) : Rat) / numbers.length) ^
          spec.count) ∧
    (spec.modifiers.keep? = some ⟨.low, 1⟩ →
      analysis.distribution.massWhere (v < ·) =
        ((numbers.length - (numbers.map spec.modifiers.boost.apply).countP (· ≤ v) : Rat) /
          numbers.length) ^ spec.count) := by
  constructor
  · intro hk
    exact massWhere_highest_le hc hd ha hn h hk v
  · intro hk
    have others : ((numbers.map spec.modifiers.boost.apply).countP (v < ·) : Rat) =
        numbers.length - (numbers.map spec.modifiers.boost.apply).countP (· ≤ v) := by
      have split : (numbers.map spec.modifiers.boost.apply).length = _ :=
        List.length_eq_countP_add_countP fun x ↦ decide (x ≤ v)
      simp only [List.length_map, decide_eq_true_eq, not_le] at split
      rw [eq_sub_iff_add_eq', split, Nat.cast_add]
    rw [← others]
    apply massWhere_keep_one hc hd ha hn h hk
    intro values some narrow
    simp only [decide_eq_true_eq]
    exact lt_sum_keep_lowest some narrow v

private def unevenPair (layer : Layer) : Spec where
  count := 2
  faces := .list [.number 1, .number 1, .number 2] (by decide)
  modifiers := { keep? := some ⟨layer, 1⟩ }

/-- Of two dice with two ones and a two, the higher is one with the mass 4/9, and the lower is two
with the mass 1/9. -/
theorem exact_extreme_unevenPair :
    (∃ analysis, exact (unevenPair .high) {} = .ok analysis ∧
      analysis.distribution.massWhere (· ≤ 1) = 4 / 9) ∧
    ∃ analysis, exact (unevenPair .low) {} = .ok analysis ∧
      analysis.distribution.massWhere (1 < ·) = 1 / 9 := by
  have numbers (layer : Layer) : (unevenPair layer).faces.numbers? = some [1, 1, 2] := rfl
  obtain ⟨highest, h⟩ : ∃ analysis, exact (unevenPair .high) {} = .ok analysis :=
    exists_exact_ok ⟨rfl, rfl⟩ (numbers _) (by decide) fun _ ↦ by decide +kernel
  obtain ⟨lowest, l⟩ : ∃ analysis, exact (unevenPair .low) {} = .ok analysis :=
    exists_exact_ok ⟨rfl, rfl⟩ (numbers _) (by decide) fun _ ↦ by decide +kernel
  have within := (exact_extreme (by decide) rfl rfl (numbers .high) h 1).1 rfl
  have beyond := (exact_extreme (by decide) rfl rfl (numbers .low) l 1).2 rfl
  exact ⟨⟨highest, h, within.trans (by decide +kernel)⟩,
    ⟨lowest, l, beyond.trans (by decide +kernel)⟩⟩

end Analysis

end DicePool
