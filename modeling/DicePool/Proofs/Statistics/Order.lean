import DicePool.Proofs.Distribution
import DicePool.Statistics
import Mathlib.Data.Finset.Max
import Mathlib.Order.Bounds.Basic

/-!
# Extremes, modes and quantiles

The statistics that are outcomes, by their place in the order: the least and the greatest outcome,
those of greatest mass, and the least ones up to which there is a share of the mass. The extremes,
the modes and the order of the percentiles depend neither on the signs nor on the sum of the masses.
-/

namespace DicePool

namespace Distribution

variable {d : Distribution Value} {v : Value}

/-- The first outcome is the least. -/
theorem exists_min? (ascending : Table.Ascending d.outcomes) (listed : d.outcomes ≠ []) :
    ∃ v, d.min? = some v ∧ IsLeast {x | x ∈ Table.keys d.outcomes} v := by
  unfold min?
  cases h : d.outcomes with
  | nil => exact absurd h listed
  | cons e rest =>
    rw [h] at ascending
    refine ⟨e.1, rfl, List.mem_cons_self, fun x hx ↦ ?_⟩
    rcases List.mem_cons.mp hx with rfl | hx
    · exact le_rfl
    · exact ((List.pairwise_cons.mp ascending).1 x hx).le

/-- The last outcome is the greatest. -/
theorem exists_max? (ascending : Table.Ascending d.outcomes) (listed : d.outcomes ≠ []) :
    ∃ v, d.max? = some v ∧ IsGreatest {x | x ∈ Table.keys d.outcomes} v := by
  obtain ⟨rest, e, h⟩ := (List.eq_nil_or_concat d.outcomes).resolve_left listed
  have keys : Table.keys d.outcomes = Table.keys rest ++ [e.1] := by
    rw [h, List.concat_eq_append, Table.keys, List.map_append]
    rfl
  unfold Table.Ascending at ascending
  rw [keys, List.pairwise_append] at ascending
  have last : d.max? = some e.1 := by
    rw [max?, h, List.concat_eq_append, List.getLast?_concat, Option.map_some]
  refine ⟨e.1, last, ?_, ?_⟩
  · show e.1 ∈ Table.keys d.outcomes
    rw [keys]
    exact List.mem_append_right _ List.mem_cons_self
  · intro x hx
    replace hx : x ∈ Table.keys rest ++ [e.1] := keys ▸ hx
    rcases List.mem_append.mp hx with hx | hx
    · exact (ascending.2.2 x hx e.1 List.mem_cons_self).le
    · exact (List.mem_singleton.mp hx).le

/-- Whether an outcome is the least one up to which there is a share of the mass. -/
def IsQuantile (d : Distribution Value) (share : Rat) (v : Value) : Prop :=
  IsLeast {x | x ∈ Table.keys d.outcomes ∧ share ≤ d.massWhere (· ≤ x)} v

/-- Where there is a share of the mass up to some outcome, there is a least such outcome. -/
theorem exists_isQuantile {share : Rat} {x : Value} (hx : x ∈ Table.keys d.outcomes)
    (reached : share ≤ d.massWhere (· ≤ x)) : ∃ v, d.IsQuantile share v := by
  have found : ((Table.keys d.outcomes).toFinset.filter
      fun x ↦ share ≤ d.massWhere (· ≤ x)).Nonempty :=
    ⟨x, Finset.mem_filter.mpr ⟨List.mem_toFinset.mpr hx, reached⟩⟩
  have least := Finset.isLeast_min' _ found
  rw [Finset.coe_filter] at least
  simp only [List.mem_toFinset] at least
  exact ⟨_, least⟩

/-- Below a quantile there is less mass than its share. -/
theorem IsQuantile.massWhere_lt {share : Rat} (h : d.IsQuantile share v) (positive : 0 < share) :
    d.massWhere (· < v) < share := by
  let below := (Table.keys d.outcomes).toFinset.filter (· < v)
  have mem_below (x : Value) : x ∈ below ↔ x ∈ Table.keys d.outcomes ∧ x < v := by
    rw [Finset.mem_filter, List.mem_toFinset]
  rcases below.eq_empty_or_nonempty with none | some
  · have nothing : d.massWhere (· < v) = 0 := by
      rw [massWhere, Table.valuesWhere_eq_nil, sumOf_nil]
      intro x hx
      have outside := (mem_below x).not.mp (none ▸ Finset.notMem_empty x)
      exact decide_eq_false fun lt ↦ outside ⟨hx, lt⟩
    rwa [nothing]
  · -- the mass below the quantile is the mass up to the greatest outcome below it
    obtain ⟨listed, lt⟩ := (mem_below _).mp (below.max'_mem some)
    have upTo : d.massWhere (· < v) = d.massWhere (· ≤ below.max' some) := by
      apply massWhere_congr
      intro x hx
      apply decide_eq_decide.mpr
      exact ⟨fun hlt ↦ below.le_max' x ((mem_below x).mpr ⟨hx, hlt⟩), fun le ↦ le.trans_lt lt⟩
    rw [upTo]
    by_contra reached
    exact (h.2 ⟨listed, not_lt.mp reached⟩).not_gt lt

end Distribution

namespace Statistics

/-- Adding up masses reaches a target first at the least outcome up to which they reach it. -/
theorem reach_eq_some_iff {t : Table Value Probability} (ascending : t.Ascending)
    (target sum : Probability) (v : Value) : reach target sum t = some v ↔
      IsLeast {x | x ∈ t.keys ∧ target ≤ sum + sumOf (t.valuesWhere (· ≤ x))} v := by
  induction t generalizing sum with
  | nil => exact ⟨nofun, fun h ↦ absurd h.1.1 List.not_mem_nil⟩
  | cons e rest ih =>
    obtain ⟨a, p⟩ := e
    obtain ⟨first, others⟩ := List.pairwise_cons.mp ascending
    have here : sumOf (Table.valuesWhere ((a, p) :: rest) (· ≤ a)) = p := by
      rw [Table.valuesWhere_cons, if_pos (decide_eq_true le_rfl), Table.valuesWhere_eq_nil,
        sumOf_cons, sumOf_nil, add_zero]
      intro x hx
      exact decide_eq_false (first x hx).not_ge
    have later (x : Value) (hx : x ∈ Table.keys rest) :
        sumOf (Table.valuesWhere ((a, p) :: rest) (· ≤ x)) =
          p + sumOf (Table.valuesWhere rest (· ≤ x)) := by
      rw [Table.valuesWhere_cons, if_pos (decide_eq_true (first x hx).le), sumOf_cons]
    rw [reach]
    split
    · next reached =>
      have least : IsLeast {x | x ∈ Table.keys ((a, p) :: rest) ∧
          target ≤ sum + sumOf (Table.valuesWhere ((a, p) :: rest) (· ≤ x))} a := by
        refine ⟨⟨List.mem_cons_self, here.symm ▸ reached⟩, fun x hx ↦ ?_⟩
        rcases List.mem_cons.mp hx.1 with rfl | hx
        · exact le_rfl
        · exact (first x hx).le
      rw [Option.some.injEq]
      exact ⟨fun same ↦ same ▸ least, fun h ↦ least.unique h⟩
    · next short =>
      have same : {x | x ∈ Table.keys rest ∧
            target ≤ sum + p + sumOf (Table.valuesWhere rest (· ≤ x))} =
          {x | x ∈ Table.keys ((a, p) :: rest) ∧
            target ≤ sum + sumOf (Table.valuesWhere ((a, p) :: rest) (· ≤ x))} := by
        ext x
        constructor
        · rintro ⟨hx, reached⟩
          exact ⟨List.mem_cons_of_mem a hx, by rwa [later x hx, ← add_assoc]⟩
        · rintro ⟨hx, reached⟩
          rcases List.mem_cons.mp hx with rfl | hx
          · exact absurd (here ▸ reached) short
          · exact ⟨hx, by rwa [later x hx, ← add_assoc] at reached⟩
      rw [ih others, same]

section Percentile

variable {d : Distribution Value} (ascending : Table.Ascending d.outcomes) {percent percent' : Nat}
  {v greatest : Value}

include ascending

/-- The percentile is the quantile, if there is one. -/
theorem percentile_of_isQuantile (h : d.IsQuantile (percent / 100) v) :
    percentile d percent greatest = v := by
  have found : reach ((percent : Probability) / 100) 0 d.outcomes = some v := by
    rw [reach_eq_some_iff ascending]
    simp only [zero_add]
    exact h
  rw [percentile, found, Option.getD_some]

/-- The percentile is the greatest outcome, if there is no quantile. -/
theorem percentile_of_not_exists (h : ¬∃ v, d.IsQuantile (percent / 100) v) :
    percentile d percent greatest = greatest := by
  unfold percentile
  cases found : reach ((percent : Probability) / 100) 0 d.outcomes with
  | none => rfl
  | some v =>
    rw [reach_eq_some_iff ascending] at found
    simp only [zero_add] at found
    exact absurd ⟨v, found⟩ h

variable (top : IsGreatest {x | x ∈ Table.keys d.outcomes} greatest)

include top

/-- A percentile is an outcome. -/
theorem percentile_mem : percentile d percent greatest ∈ Table.keys d.outcomes := by
  by_cases h : ∃ v, d.IsQuantile (percent / 100) v
  · obtain ⟨v, hv⟩ := h
    rw [percentile_of_isQuantile ascending hv]
    exact hv.1.1
  · rw [percentile_of_not_exists ascending h]
    exact top.1

/-- Percentiles of higher percentages are no lower. -/
theorem percentile_mono (le : percent ≤ percent') :
    percentile d percent greatest ≤ percentile d percent' greatest := by
  by_cases h : ∃ v, d.IsQuantile (percent' / 100) v
  · obtain ⟨v', hv'⟩ := h
    have lower : (percent / 100 : Rat) ≤ percent' / 100 :=
      div_le_div_of_nonneg_right (by exact_mod_cast le) (by decide)
    have reached := lower.trans hv'.1.2
    obtain ⟨v, hv⟩ := Distribution.exists_isQuantile hv'.1.1 reached
    rw [percentile_of_isQuantile ascending hv, percentile_of_isQuantile ascending hv']
    exact hv.2 ⟨hv'.1.1, reached⟩
  · rw [percentile_of_not_exists ascending h]
    exact top.2 (percentile_mem ascending top)

/-- Where the masses add up to one, every percentile is a quantile. -/
theorem isQuantile_percentile (whole : d.mass = 1) (le : percent ≤ 100) :
    d.IsQuantile (percent / 100) (percentile d percent greatest) := by
  have all : d.massWhere (· ≤ greatest) = 1 := by
    rw [← whole, ← Distribution.massWhere_true]
    apply Distribution.massWhere_congr
    intro x hx
    exact decide_eq_true (top.2 hx)
  have within : (percent / 100 : Rat) ≤ 1 :=
    div_le_one_of_le₀ (by exact_mod_cast le) (by decide)
  obtain ⟨v, hv⟩ := Distribution.exists_isQuantile top.1 (all.symm ▸ within)
  rwa [percentile_of_isQuantile ascending hv]

end Percentile

/-- The greatest of a first mass and others. -/
theorem isGreatest_greatest (first : Probability) (masses : List Probability) :
    IsGreatest {p | p ∈ first :: masses} (greatest first masses) := by
  induction masses generalizing first with
  | nil => exact ⟨List.mem_cons_self, fun p hp ↦ (List.mem_singleton.mp hp).le⟩
  | cons q masses ih =>
    have step : greatest first (q :: masses) = greatest (first ⊔ q) masses := by
      rw [greatest, List.foldl_cons, ← max_def_lt, greatest]
    have higher : first ⊔ q ∈ first :: q :: masses := by
      rcases max_choice first q with h | h <;> rw [h]
      · exact List.mem_cons_self
      · exact List.mem_cons_of_mem _ List.mem_cons_self
    obtain ⟨mem, upper⟩ := ih (first ⊔ q)
    have top : first ⊔ q ≤ greatest (first ⊔ q) masses := upper List.mem_cons_self
    rw [step]
    constructor
    · rcases List.mem_cons.mp mem with same | mem
      · exact same.symm ▸ higher
      · exact List.mem_cons_of_mem _ (List.mem_cons_of_mem _ mem)
    · intro p hp
      rcases List.mem_cons.mp hp with rfl | hp
      · exact (le_max_left p q).trans top
      · rcases List.mem_cons.mp hp with rfl | hp
        · exact (le_max_right first p).trans top
        · exact upper (List.mem_cons_of_mem _ hp)

/-- The modes are the outcomes with the greatest of all masses. -/
theorem exists_modeOf {d : Distribution Value} (listed : d.outcomes ≠ []) :
    ∃ top, IsGreatest {p | p ∈ Table.values d.outcomes} top ∧
      modeOf d = Table.keys (d.outcomes.filter fun e ↦ e.2 = top) := by
  unfold modeOf
  cases masses : Table.values d.outcomes with
  | nil => exact absurd (List.map_eq_nil_iff.mp masses) listed
  | cons p ps => exact ⟨greatest p ps, isGreatest_greatest p ps, rfl⟩

/-- There is a mode. -/
theorem modeOf_ne_nil {d : Distribution Value} (listed : d.outcomes ≠ []) : modeOf d ≠ [] := by
  obtain ⟨top, greatest, eq⟩ := exists_modeOf listed
  obtain ⟨e, he, same⟩ := List.mem_map.mp greatest.1
  rw [eq]
  apply List.ne_nil_of_mem (a := e.1)
  exact List.mem_map_of_mem (List.mem_filter.mpr ⟨he, decide_eq_true same⟩)

/-- The modes are listed in ascending order. -/
theorem pairwise_modeOf {d : Distribution Value} (ascending : Table.Ascending d.outcomes)
    (listed : d.outcomes ≠ []) : (modeOf d).Pairwise (· < ·) := by
  obtain ⟨top, _, eq⟩ := exists_modeOf listed
  rw [eq]
  exact ascending.sublist (List.filter_sublist.map Prod.fst)

/-- The modes are the outcomes that no other one exceeds in mass. -/
theorem mem_modeOf_iff {d : Distribution Value} (ascending : Table.Ascending d.outcomes)
    (listed : d.outcomes ≠ []) (v : Value) : v ∈ modeOf d ↔ v ∈ Table.keys d.outcomes ∧
      ∀ w ∈ Table.keys d.outcomes, d.probability w ≤ d.probability v := by
  obtain ⟨top, greatest, eq⟩ := exists_modeOf listed
  have mass {e : Value × Probability} (he : e ∈ d.outcomes) : d.probability e.1 = e.2 :=
    Distribution.probability_of_mem ascending he
  rw [eq]
  constructor
  · intro h
    obtain ⟨e, he, rfl⟩ := List.mem_map.mp h
    obtain ⟨he, same⟩ := List.mem_filter.mp he
    refine ⟨List.mem_map_of_mem he, fun w hw ↦ ?_⟩
    obtain ⟨e', he', rfl⟩ := List.mem_map.mp hw
    rw [mass he, mass he', of_decide_eq_true same]
    exact greatest.2 (List.mem_map_of_mem he')
  · rintro ⟨hv, most⟩
    obtain ⟨e, he, rfl⟩ := List.mem_map.mp hv
    obtain ⟨e', he', same⟩ := List.mem_map.mp greatest.1
    have le := most e'.1 (List.mem_map_of_mem he')
    rw [mass he, mass he', same] at le
    have equal : e.2 = top := (greatest.2 (List.mem_map_of_mem he)).antisymm le
    exact List.mem_map_of_mem (List.mem_filter.mpr ⟨he, decide_eq_true equal⟩)

end Statistics
end DicePool
