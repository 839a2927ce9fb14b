import DicePool.Tally
import DicePool.Proofs.Table
import Mathlib.Algebra.MonoidAlgebra.Defs
import Mathlib.Algebra.BigOperators.Ring.Finset
import Mathlib.Algebra.Order.BigOperators.Group.List
import Mathlib.Algebra.Order.Group.Nat

/-!
# The generating series of a tally

A tally is a formal sum of its outcomes with their weights. Recording adds a term, and the tally
of a sum of independent outcomes is the product. The weight of a set of outcomes is read off the
series by an additive map, so that two ways to count the same outcomes need only be compared as
series.
-/

namespace DicePool

open AddMonoidAlgebra

variable {K : Type}

/-- The weight that a formal sum gives to the outcomes that satisfy a predicate. -/
noncomputable def weigh (p : K → Bool) : AddMonoidAlgebra Nat K →+ Nat :=
  (Finsupp.liftAddHom fun k ↦ if p k then AddMonoidHom.id Nat else 0).comp
    coeffAddEquiv.toAddMonoidHom

/-- A single term is weighed if its outcome satisfies the predicate. -/
@[simp] theorem weigh_single (p : K → Bool) (k : K) (w : Nat) :
    weigh p (single k w) = if p k then w else 0 := by
  unfold weigh
  simp only [AddMonoidHom.comp_apply, AddEquiv.toAddMonoidHom_eq_coe, AddMonoidHom.coe_coe,
    coeffAddEquiv_apply, coeff_single, Finsupp.liftAddHom_apply_single]
  split <;> rfl

/-- A sum of single outcomes weighs as many of them as satisfy the predicate. -/
theorem weigh_sum_single {ι : Type} (p : K → Bool) (s : Finset ι) (f : ι → K) :
    weigh p (∑ i ∈ s, single (f i) 1) = (s.filter fun i ↦ p (f i) = true).card := by
  rw [map_sum, Finset.card_filter]
  simp only [weigh_single]

/-- A list of single outcomes weighs as many of them as satisfy the predicate. -/
theorem weigh_sum_map_single {ι : Type} (p : K → Bool) (f : ι → K) (items : List ι) :
    weigh p (items.map fun i ↦ single (f i) 1).sum = items.countP fun i ↦ p (f i) := by
  induction items with
  | nil => exact map_zero _
  | cons i items ih =>
    rw [List.map_cons, List.sum_cons, map_add, weigh_single, ih, List.countP_cons, Nat.add_comm]

namespace Tally

/-- The formal sum of the outcomes of a tally with their weights. -/
noncomputable def series (t : Tally K) : AddMonoidAlgebra Nat K :=
  (t.counts.map fun e ↦ single e.1 e.2).sum

/-- The weight of a set of outcomes is read off the series. -/
theorem weightWhere_eq (t : Tally K) (p : K → Bool) : t.weightWhere p = weigh p t.series := by
  unfold weightWhere series
  induction t.counts with
  | nil => rfl
  | cons e rest ih =>
    rw [List.map_cons, List.sum_cons, map_add, weigh_single, ← ih, Table.valuesWhere_cons]
    split
    · rfl
    · rw [Nat.zero_add]

/-- Whether all stored weights are positive. -/
def Positive (t : Tally K) : Prop := ∀ e ∈ t.counts, 0 < e.2

private theorem sumOf_valuesWhere_pos_iff (p : K → Bool) (counts : Table K Nat)
    (h : ∀ e ∈ counts, 0 < e.2) :
    0 < sumOf (Table.valuesWhere counts p) ↔ ∃ k ∈ Table.keys counts, p k = true := by
  induction counts with
  | nil => simp [Table.valuesWhere, Table.values, Table.keys, sumOf]
  | cons e rest ih =>
    obtain ⟨he, hr⟩ := List.forall_mem_cons.mp h
    rw [Table.keys, List.map_cons, List.exists_mem_cons_iff, ← Table.keys, ← ih hr,
      Table.valuesWhere_cons]
    cases p e.1 with
    | true =>
      rw [if_pos rfl, sumOf_cons]
      simp only [true_or, iff_true]
      omega
    | false => simp

/-- When all stored weights are positive, a set of outcomes has weight exactly if one of them is
stored. -/
theorem weightWhere_pos_iff {t : Tally K} (h : t.Positive) (p : K → Bool) :
    0 < t.weightWhere p ↔ ∃ k ∈ Table.keys t.counts, p k = true :=
  sumOf_valuesWhere_pos_iff p t.counts h

/-- The empty tally has no terms. -/
@[simp] theorem series_empty : (empty : Tally K).series = 0 := rfl

variable [LT K] [DecidableLT K] [Std.Trichotomous (α := K) (· < ·)]

section Sum

variable {M : Type} [AddCommMonoid M] {f : K → Nat → M}

/-- Recording adds the quantity of the new weight, for every quantity that is additive in it. -/
theorem sum_record (h0 : ∀ k, f k 0 = 0) (hf : ∀ k v w, f k (v + w) = f k v + f k w)
    (t : Tally K) (k : K) (w : Nat) :
    ((t.record k w).counts.map fun e ↦ f e.1 e.2).sum =
      f k w + (t.counts.map fun e ↦ f e.1 e.2).sum := by
  unfold record
  split
  · next h => rw [h, h0, zero_add]
  · exact Table.sum_upsert hf k w t.counts

/-- A list is tallied with the quantities of its outcomes. -/
theorem sum_ofList (h0 : ∀ k, f k 0 = 0) (hf : ∀ k v w, f k (v + w) = f k v + f k w)
    (ks : List K) :
    ((ofList ks).counts.map fun e ↦ f e.1 e.2).sum = (ks.map fun k ↦ f k 1).sum := by
  induction ks with
  | nil => rfl
  | cons k ks ih =>
    change (((ofList ks).record k 1).counts.map _).sum = _
    rw [sum_record h0 hf, ih, List.map_cons, List.sum_cons]

end Sum

/-- Recording adds a term. -/
theorem series_record (t : Tally K) (k : K) (w : Nat) :
    (t.record k w).series = single k w + t.series :=
  sum_record single_zero single_add t k w

/-- A list is tallied with one term for each item. -/
theorem series_ofList (ks : List K) : (ofList ks).series = (ks.map fun k ↦ single k 1).sum :=
  sum_ofList single_zero single_add ks

section Records

variable {ι : Type} (f : ι → K) (w : ι → Nat)

/-- Records one after the other add their terms. -/
theorem series_foldl_record (items : List ι) (t : Tally K) :
    (items.foldl (fun t i ↦ t.record (f i) (w i)) t).series =
      t.series + (items.map fun i ↦ single (f i) (w i)).sum := by
  induction items generalizing t with
  | nil => simp
  | cons i items ih =>
    rw [List.foldl_cons, ih, series_record, List.map_cons, List.sum_cons, add_left_comm, add_assoc]

omit [Std.Trichotomous (α := K) (· < ·)] in
/-- The total of records is the weight of all their outcomes. -/
theorem total_foldl_record (items : List ι) :
    (items.foldl (fun t i ↦ t.record (f i) (w i)) empty).total =
      weigh (fun _ ↦ true) (items.map fun i ↦ single (f i) (w i)).sum := by
  have add (t : Tally K) : (items.foldl (fun t i ↦ t.record (f i) (w i)) t).total =
      t.total + weigh (fun _ ↦ true) (items.map fun i ↦ single (f i) (w i)).sum := by
    induction items generalizing t with
    | nil => rfl
    | cons i items ih =>
      rw [List.foldl_cons, ih, total_record, List.map_cons, List.sum_cons, map_add, weigh_single,
        if_pos rfl, Nat.add_assoc]
  exact (add empty).trans (Nat.zero_add _)

end Records

section Convolution

variable {K : Type} [LT K] [DecidableLT K] [Std.Trichotomous (α := K) (· < ·)] [Add K]

private theorem series_shift (counts : Table K Nat) (k : K) (w : Nat) :
    ((shift counts k w).map fun e ↦ single e.1 e.2).sum =
      (counts.map fun e ↦ single e.1 e.2).sum * single k w := by
  induction counts with
  | nil => exact (zero_mul _).symm
  | cons e counts ih =>
    rw [shift_cons, Table.sum_upsert single_add, ih, List.map_cons, List.sum_cons, add_mul,
      single_mul_single]

/-- The tally of a sum is the product of the tallies. -/
theorem series_convolve (a b : Tally K) : (a.convolve b).series = a.series * b.series := by
  have step (bs sums : Table K Nat) :
      ((bs.foldl (fun sums e ↦ Table.merge (· + ·) sums (shift a.counts e.1 e.2)) sums).map
          fun e ↦ single e.1 e.2).sum =
        (sums.map fun e ↦ single e.1 e.2).sum +
          a.series * (bs.map fun e ↦ single e.1 e.2).sum := by
    induction bs generalizing sums with
    | nil => simp
    | cons e bs ih =>
      rw [List.foldl_cons, ih, Table.sum_merge single_add, series_shift, List.map_cons,
        List.sum_cons, mul_add, add_assoc]
      rfl
  exact (step b.counts []).trans (zero_add _)

omit [Std.Trichotomous (α := K) (· < ·)] in
/-- The total of independent dice is the power of the total of one. -/
theorem total_power (t : Tally K) {n : Nat} (hn : 0 < n) : (t.power n).total = t.total ^ n := by
  induction n using power.induct with
  | case1 => exact absurd hn (Nat.lt_irrefl 0)
  | case2 => rw [power, pow_one]
  | case3 n ih =>
    rw [power, pow_succ t.total, ← ih (Nat.succ_pos n)]
    rfl

end Convolution

/-- Where sums can be regrouped, independent dice multiply. -/
theorem series_power [AddCommMonoid K] (t : Tally K) {n : Nat} (hn : 0 < n) :
    (t.power n).series = t.series ^ n := by
  induction n using power.induct with
  | case1 => exact absurd hn (Nat.lt_irrefl 0)
  | case2 => rw [power, pow_one]
  | case3 n ih => rw [power, series_convolve, ih (Nat.succ_pos n), ← pow_succ]

section Positive

omit [Std.Trichotomous (α := K) (· < ·)]

omit [LT K] [DecidableLT K] in
/-- The empty tally stores nothing. -/
theorem positive_empty : (empty : Tally K).Positive := by
  intro e he
  exact absurd he (List.not_mem_nil)

/-- A recorded weight is stored only if it is positive. -/
theorem Positive.record {t : Tally K} (h : t.Positive) (k : K) (w : Nat) :
    (t.record k w).Positive := by
  unfold Tally.record
  split
  · exact h
  · next hw =>
    exact Table.forall_values_upsert (P := fun w ↦ 0 < w) (fun v w hv _ ↦ Nat.add_pos_left hv w)
      (Nat.pos_of_ne_zero hw) h

/-- Records keep the stored weights positive. -/
theorem Positive.foldl_record {ι : Type} (f : ι → K) (w : ι → Nat) (items : List ι) {t : Tally K}
    (h : t.Positive) : (items.foldl (fun t i ↦ t.record (f i) (w i)) t).Positive := by
  induction items generalizing t with
  | nil => exact h
  | cons i items ih => exact ih (h.record (f i) (w i))

/-- The tally of a list stores positive weights. -/
theorem positive_ofList (ks : List K) : (ofList ks).Positive := by
  induction ks with
  | nil => exact positive_empty
  | cons k ks ih => exact ih.record k 1

/-- Convolution keeps the stored weights positive. -/
theorem Positive.convolve [Add K] {a b : Tally K} (ha : a.Positive) (hb : b.Positive) :
    (a.convolve b).Positive := by
  have shifted (k : K) (w : Nat) (hw : 0 < w) : ∀ e ∈ shift a.counts k w, 0 < e.2 := by
    rw [shift_eq]
    refine List.foldrRecOn _ _ (motive := fun t : Table K Nat ↦ ∀ e ∈ t, 0 < e.2) nofun ?_
    intro t ht e he
    exact Table.forall_values_upsert (P := fun w ↦ 0 < w) (fun v w hv _ ↦ Nat.add_pos_left hv w)
      (Nat.mul_pos (ha e he) hw) ht
  have step (bs : Table K Nat) (hb : ∀ e ∈ bs, 0 < e.2) (sums : Table K Nat)
      (hs : ∀ e ∈ sums, 0 < e.2) :
      ∀ e ∈ bs.foldl (fun sums e ↦ Table.merge (· + ·) sums (shift a.counts e.1 e.2)) sums,
        0 < e.2 := by
    induction bs generalizing sums with
    | nil => exact hs
    | cons e bs ih =>
      obtain ⟨he, hr⟩ := List.forall_mem_cons.mp hb
      exact ih hr _ (Table.forall_values_merge (P := fun w ↦ 0 < w)
        (fun v w hv _ ↦ Nat.add_pos_left hv w) hs (shifted e.1 e.2 he))
  exact step b.counts hb [] (fun e he ↦ absurd he List.not_mem_nil)

/-- Independent dice have positive weights. -/
theorem Positive.power [Add K] {t : Tally K} (h : t.Positive) (n : Nat) : (t.power n).Positive := by
  induction n using power.induct with
  | case1 => exact h
  | case2 => exact h
  | case3 n ih => exact ih.convolve h

end Positive

section WellFormed

omit [DecidableLT K] [Std.Trichotomous (α := K) (· < ·)] in
/-- No stored weight exceeds the total. -/
theorem WellFormed.le_total {t : Tally K} (h : t.WellFormed) {e : K × Nat} (he : e ∈ t.counts) :
    e.2 ≤ t.total := by
  rw [h.2.2]
  exact List.le_sum_of_mem (List.mem_map_of_mem he)

omit [DecidableLT K] [Std.Trichotomous (α := K) (· < ·)] in
/-- A set of outcomes weighs at most the total. -/
theorem WellFormed.weightWhere_le_total {t : Tally K} (h : t.WellFormed) (p : K → Bool) :
    t.weightWhere p ≤ t.total := by
  rw [h.2.2]
  exact (List.filter_sublist.map Prod.snd).sum_le_sum fun _ _ ↦ Nat.zero_le _

omit [DecidableLT K] [Std.Trichotomous (α := K) (· < ·)] in
/-- A tally with outcomes has a positive total. -/
theorem WellFormed.total_pos {t : Tally K} (h : t.WellFormed) (some : t.counts ≠ []) :
    0 < t.total := by
  obtain ⟨e, he⟩ := List.exists_mem_of_ne_nil t.counts some
  exact Nat.lt_of_lt_of_le (h.2.1 e he) (h.le_total he)

/-- Recording keeps a tally well-formed. -/
theorem WellFormed.record [IsTrans K (· < ·)] {t : Tally K} (h : t.WellFormed) (k : K) (w : Nat) :
    (t.record k w).WellFormed := by
  obtain ⟨ascending, positive, total⟩ := h
  have sum := sum_record (f := fun _ w ↦ w) (fun _ ↦ rfl) (fun _ _ _ ↦ rfl) t k w
  refine ⟨?_, Positive.record positive k w, ?_⟩
  · unfold Tally.record
    split
    · exact ascending
    · exact Table.ascending_upsert _ k w ascending
  · rw [total_record, total, Nat.add_comm]
    exact sum.symm

/-- The tally of a list is well-formed. -/
theorem wellFormed_ofList [IsTrans K (· < ·)] (ks : List K) : (ofList ks).WellFormed := by
  induction ks with
  | nil => exact wellFormed_empty
  | cons k ks ih => exact ih.record k 1

section Weights

variable [DecidableEq K] [Std.Irrefl (α := K) (· < ·)]

omit [DecidableLT K] [Std.Trichotomous (α := K) (· < ·)] in
/-- A well-formed tally stores the outcomes that have weight, each with its weight. -/
theorem WellFormed.mem_counts_iff {t : Tally K} (h : t.WellFormed) {k : K} {w : Nat} :
    (k, w) ∈ t.counts ↔ 0 < w ∧ t.weight k = w := by
  obtain ⟨ascending, positive, _⟩ := h
  have stored {w : Nat} (mem : (k, w) ∈ t.counts) : t.weight k = w := by
    rw [weight, weightWhere, ascending.valuesWhere_eq mem, sumOf_cons, sumOf_nil, Nat.add_zero]
  constructor
  · intro mem
    exact ⟨positive _ mem, stored mem⟩
  · rintro ⟨pos, rfl⟩
    obtain ⟨k', hk', same⟩ := (weightWhere_pos_iff positive _).mp pos
    obtain ⟨e, he, rfl⟩ := List.mem_map.mp hk'
    obtain rfl := of_decide_eq_true same
    rwa [stored he]

omit [DecidableLT K] [Std.Trichotomous (α := K) (· < ·)] in
/-- Well-formed tallies are told apart by the weights of outcomes. -/
theorem WellFormed.eq_of_weight [IsTrans K (· < ·)] {t t' : Tally K} (h : t.WellFormed)
    (h' : t'.WellFormed) (weights : ∀ k, t.weight k = t'.weight k) : t = t' := by
  have counts : t.counts = t'.counts := by
    apply h.1.eq_of_mem_iff h'.1
    intro e
    rw [h.mem_counts_iff, h'.mem_counts_iff, weights]
  have totals : t.total = t'.total := by rw [h.2.2, h'.2.2, counts]
  cases t
  cases t'
  exact congrArg₂ mk counts totals

end Weights

/-- A list is tallied with the number of times that each item occurs. -/
theorem weight_ofList [DecidableEq K] [BEq K] [LawfulBEq K] (ks : List K) (k : K) :
    (ofList ks).weight k = ks.count k := by
  rw [weight, weightWhere_eq, series_ofList, weigh_sum_map_single, List.count]
  apply List.countP_congr
  intro x _
  simp

/-- The outcomes of a list are tallied, and no others. -/
theorem mem_keys_ofList {ks : List K} {k : K} : k ∈ Table.keys (ofList ks).counts ↔ k ∈ ks := by
  induction ks with
  | nil => exact Iff.rfl
  | cons k' ks ih =>
    show k ∈ Table.keys (Table.upsert (· + ·) k' 1 (ofList ks).counts) ↔ k ∈ k' :: ks
    rw [Table.mem_keys_upsert_iff, ih, List.mem_cons]

end WellFormed

end Tally
end DicePool
