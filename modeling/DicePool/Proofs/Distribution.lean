import DicePool.Distribution
import DicePool.Proofs.Tally.Series
import Mathlib.Algebra.BigOperators.Group.List.Basic
import Mathlib.Algebra.BigOperators.Ring.List
import Mathlib.Algebra.Field.Basic
import Mathlib.Algebra.Field.Rat
import Mathlib.Algebra.Order.BigOperators.Group.List
import Mathlib.Algebra.Order.Field.Basic
import Mathlib.Algebra.Order.Ring.Rat

/-!
# Masses of distributions

The masses of a tally are its weights over their total. Relabelling moves the mass of every
outcome to its label, and loses nothing when labels meet.
-/

namespace DicePool.Distribution

variable {K J : Type}

/-- The expected quantity of an outcome: the quantities of all outcomes, each weighted by its
mass. -/
def expectation (d : Distribution K) (g : K → Rat) : Rat :=
  (d.outcomes.map fun e ↦ g e.1 * e.2).sum

/-- The mass of a set of outcomes is the expectation of belonging to it. -/
theorem massWhere_eq_expectation (d : Distribution K) (p : K → Bool) :
    d.massWhere p = d.expectation fun k ↦ if p k then 1 else 0 := by
  unfold massWhere expectation
  induction d.outcomes with
  | nil => rfl
  | cons e rest ih =>
    rw [List.map_cons, List.sum_cons, ← ih, Table.valuesWhere_cons]
    by_cases hp : p e.1 = true
    · simp only [hp, if_true, one_mul, sumOf_cons]
    · simp only [hp, if_false, zero_mul, zero_add, Bool.false_eq_true]

/-- Expected quantities add up. -/
theorem expectation_add (d : Distribution K) (g h : K → Rat) :
    (d.expectation fun k ↦ g k + h k) = d.expectation g + d.expectation h := by
  unfold expectation
  rw [← List.sum_map_add]
  simp only [add_mul]

/-- A factor can be taken out of an expected quantity. -/
theorem expectation_mul_left (d : Distribution K) (c : Rat) (g : K → Rat) :
    (d.expectation fun k ↦ c * g k) = c * d.expectation g := by
  unfold expectation
  rw [← List.sum_map_mul_left]
  simp only [mul_assoc]

/-- A constant is expected as often as there is mass. -/
theorem expectation_const (d : Distribution K) (c : Rat) :
    (d.expectation fun _ ↦ c) = c * d.mass := by
  unfold expectation mass Table.values
  rw [List.sum_map_mul_left]
  rfl

/-- Where no mass is negative, the greater of two quantities is expected to be greater. -/
theorem expectation_mono {d : Distribution K} (nonneg : ∀ e ∈ d.outcomes, 0 ≤ e.2) {g h : K → Rat}
    (le : ∀ k ∈ Table.keys d.outcomes, g k ≤ h k) : d.expectation g ≤ d.expectation h := by
  unfold expectation
  apply List.sum_le_sum
  intro e he
  exact mul_le_mul_of_nonneg_right (le e.1 (List.mem_map_of_mem he)) (nonneg e he)

/-- Sets that agree on the outcomes have the same mass. -/
theorem massWhere_congr {d : Distribution K} {p q : K → Bool}
    (h : ∀ k ∈ Table.keys d.outcomes, p k = q k) : d.massWhere p = d.massWhere q := by
  rw [massWhere, massWhere, Table.valuesWhere_congr h]

/-- The mass of a set of outcomes of a tally is its weight over the total. -/
theorem massWhere_ofTally (t : Tally K) (p : K → Bool) :
    (ofTally t).massWhere p = (t.weightWhere p : Probability) / (t.total : Probability) := by
  unfold massWhere Tally.weightWhere ofTally
  generalize t.total = total
  induction t.counts with
  | nil => exact (zero_div _).symm
  | cons e rest ih =>
    rw [List.map_cons, Table.valuesWhere_cons, Table.valuesWhere_cons]
    split
    · rw [sumOf_cons, sumOf_cons, ih, Nat.cast_add, add_div]
    · exact ih

/-- The expected quantity of an outcome of a tally is the weighted sum over the total. -/
theorem expectation_ofTally (t : Tally K) (g : K → Rat) :
    (ofTally t).expectation g = (t.counts.map fun e ↦ g e.1 * (e.2 : Rat)).sum / t.total := by
  unfold expectation ofTally
  rw [List.map_map, div_eq_mul_inv, ← List.sum_map_mul_right]
  congr 1
  apply List.map_congr_left
  intro e _
  rw [mul_assoc, ← div_eq_mul_inv]
  rfl

/-- A tally and its distribution have the same outcomes. -/
theorem keys_ofTally (t : Tally K) : Table.keys (ofTally t).outcomes = Table.keys t.counts := by
  rw [ofTally, Table.keys, List.map_map]
  rfl

section WellFormed

variable [LT K] {t : Tally K}

/-- The outcomes of a well-formed tally are listed in ascending order. -/
theorem ascending_ofTally (h : t.WellFormed) : Table.Ascending (ofTally t).outcomes := by
  rw [Table.Ascending, keys_ofTally]
  exact h.1

/-- The outcomes of a well-formed tally have positive masses of at most one. -/
theorem mass_mem_ofTally (h : t.WellFormed) {e : K × Probability}
    (he : e ∈ (ofTally t).outcomes) : 0 < e.2 ∧ e.2 ≤ 1 := by
  obtain ⟨⟨k, w⟩, hw, rfl⟩ := List.mem_map.mp he
  have total : (0 : Probability) < t.total := by
    exact_mod_cast h.total_pos (List.ne_nil_of_mem hw)
  have positive : (0 : Probability) < w := by exact_mod_cast h.2.1 _ hw
  have within : (w : Probability) ≤ t.total := by exact_mod_cast h.le_total hw
  exact ⟨div_pos positive total, (div_le_one total).mpr within⟩

/-- The masses of a well-formed tally with outcomes add up to one. -/
theorem mass_ofTally (h : t.WellFormed) (some : t.counts ≠ []) : (ofTally t).mass = 1 := by
  have total : (t.total : Probability) ≠ 0 := by exact_mod_cast (h.total_pos some).ne'
  rw [← massWhere_true, massWhere_ofTally, Tally.weightWhere_true, ← h.2.2, div_self total]

end WellFormed

section Ascending

variable [LT K] [Std.Irrefl (α := K) (· < ·)] [DecidableEq K] {d d' : Distribution K}

/-- A listed outcome has the mass that it is listed with. -/
theorem probability_of_mem {k : K} {p : Probability} (h : Table.Ascending d.outcomes)
    (mem : (k, p) ∈ d.outcomes) : d.probability k = p := by
  unfold probability massWhere
  rw [h.valuesWhere_eq mem, sumOf_cons, sumOf_nil, add_zero]

/-- Distributions with the same outcomes, each with the same mass, are the same. -/
theorem eq_of_probability [IsTrans K (· < ·)] (h : Table.Ascending d.outcomes)
    (h' : Table.Ascending d'.outcomes)
    (keys : ∀ k, k ∈ Table.keys d.outcomes ↔ k ∈ Table.keys d'.outcomes)
    (masses : ∀ k, d.probability k = d'.probability k) : d = d' := by
  have listed {d d' : Distribution K} (h : Table.Ascending d.outcomes)
      (h' : Table.Ascending d'.outcomes)
      (keys : ∀ k, k ∈ Table.keys d.outcomes → k ∈ Table.keys d'.outcomes)
      (masses : ∀ k, d.probability k = d'.probability k) (e : K × Probability)
      (he : e ∈ d.outcomes) : e ∈ d'.outcomes := by
    obtain ⟨e', he', same⟩ := List.mem_map.mp (keys e.1 (List.mem_map_of_mem he))
    have mass := masses e.1
    rw [probability_of_mem h he, ← same, probability_of_mem h' he'] at mass
    rwa [Prod.ext same.symm mass]
  have rows : d.outcomes = d'.outcomes := h.eq_of_mem_iff h' fun e ↦
    ⟨listed h h' (fun k ↦ (keys k).mp) masses e,
      listed h' h (fun k ↦ (keys k).mpr) (fun k ↦ (masses k).symm) e⟩
  exact congrArg Distribution.mk rows

end Ascending

variable [LT J] [DecidableLT J] [Std.Trichotomous (α := J) (· < ·)]

/-- The expected quantity of a label is that of the label of an outcome. -/
theorem expectation_map (f : K → J) (d : Distribution K) (g : J → Rat) :
    (d.map f).expectation g = d.expectation fun k ↦ g (f k) := by
  unfold expectation map
  induction d.outcomes with
  | nil => rfl
  | cons e rest ih =>
    rw [List.foldr_cons,
      Table.sum_upsert (f := fun j v ↦ g j * v) fun j v w ↦ mul_add (g j) v w, ih,
      List.map_cons, List.sum_cons]

omit [Std.Trichotomous (α := J) (· < ·)] in
/-- Labels that agree on the outcomes are the same. -/
theorem map_congr {f g : K → J} {d : Distribution K}
    (h : ∀ k ∈ Table.keys d.outcomes, f k = g k) : d.map f = d.map g := by
  unfold map
  congr 1
  apply List.foldr_ext
  intro e he t
  rw [h e.1 (List.mem_map_of_mem he)]

/-- The mass of a set of labels is the mass of the outcomes that get them. -/
theorem massWhere_map (f : K → J) (d : Distribution K) (p : J → Bool) :
    (d.map f).massWhere p = d.massWhere fun k ↦ p (f k) := by
  rw [massWhere_eq_expectation, expectation_map, massWhere_eq_expectation]

/-- Relabelling keeps the mass. -/
theorem mass_map (f : K → J) (d : Distribution K) : (d.map f).mass = d.mass := by
  rw [← massWhere_true, massWhere_map, massWhere_true]

omit [Std.Trichotomous (α := J) (· < ·)] in
/-- Labels are listed in ascending order. -/
theorem ascending_map [IsTrans J (· < ·)] (f : K → J) (d : Distribution K) :
    Table.Ascending (d.map f).outcomes := by
  unfold map
  induction d.outcomes with
  | nil => exact List.Pairwise.nil
  | cons e rest ih => exact Table.ascending_upsert _ (f e.1) e.2 ih

/-- The labels are those of the outcomes. -/
theorem mem_keys_map (f : K → J) (d : Distribution K) (j : J) :
    j ∈ Table.keys (d.map f).outcomes ↔ ∃ k ∈ Table.keys d.outcomes, f k = j := by
  unfold map
  induction d.outcomes with
  | nil => simp [Table.keys]
  | cons e rest ih =>
    rw [List.foldr_cons, Table.mem_keys_upsert_iff, ih]
    simp [Table.keys, eq_comm]

/-- Relabelling twice is relabelling by both at once. -/
theorem map_map {L : Type} [LT L] [DecidableLT L] [Std.Trichotomous (α := L) (· < ·)]
    [Std.Irrefl (α := L) (· < ·)] [IsTrans L (· < ·)] (f : K → J) (g : J → L)
    (d : Distribution K) : (d.map f).map g = d.map fun k ↦ g (f k) := by
  classical
  refine eq_of_probability (ascending_map g _) (ascending_map _ d) (fun l ↦ ?_) fun l ↦ ?_
  · simp only [mem_keys_map, exists_exists_and_eq_and]
  · simp only [probability, massWhere_map]

end DicePool.Distribution
