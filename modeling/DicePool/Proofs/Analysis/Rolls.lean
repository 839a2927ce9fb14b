import DicePool.Analysis.Exact
import DicePool.Proofs.Analysis.Pools
import DicePool.Proofs.Distribution
import DicePool.Proofs.Modifiers.Pool
import DicePool.Proofs.Roll.Script
import DicePool.Proofs.Tally.Series
import Mathlib.Algebra.BigOperators.Fin
import Mathlib.Algebra.Order.Ring.Rat
import Mathlib.Order.Interval.Finset.Nat

/-!
# Tallies of all rolls

The exact tallies count, for some quantity of a roll, how many vectors of answers give it each
value. Convolution, the binomial formula and the enumeration of pools all expand the same power of
the series of one die, whose terms are those vectors.
-/

namespace DicePool.Analysis

open AddMonoidAlgebra

/-- All vectors of answers that the dice of a specification can get. -/
def rolls (spec : Spec) : Finset (Fin spec.count → Nat) :=
  Fintype.piFinset fun _ ↦ Finset.Icc 1 spec.faces.size

/-- There are as many vectors as ways to choose a face for each die. -/
theorem card_rolls (spec : Spec) : (rolls spec).card = spec.faces.size ^ spec.count := by
  rw [rolls, Fintype.card_piFinset_const, Nat.card_Icc, Nat.add_sub_cancel]

/-- The answers of a vector are those of faces. -/
theorem within_of_mem_rolls {spec : Spec} {x : Fin spec.count → Nat}
    (hx : x ∈ rolls spec) : ∀ answer ∈ List.ofFn x, 1 ≤ answer ∧ answer ≤ spec.faces.size := by
  have faces := Fintype.mem_piFinset.mp hx
  rw [List.forall_mem_ofFn_iff]
  exact fun i ↦ Finset.mem_Icc.mp (faces i)

/-- What a tally says about a quantity of the answers: the weight of a set of values is the number
of vectors whose quantity is in it. -/
structure Counts {K : Type} (spec : Spec) (t : Tally K) (quantity : List Nat → K) : Prop where
  weight (p : K → Bool) :
    t.weightWhere p = ((rolls spec).filter fun x ↦ p (quantity (List.ofFn x)) = true).card
  positive : t.Positive
  total : t.total = spec.faces.size ^ spec.count

/-- Records count a quantity if their terms weigh as much as those of all vectors. -/
theorem counts_foldl_record {K ι : Type} [LT K] [DecidableLT K] [Std.Trichotomous (α := K) (· < ·)]
    {spec : Spec} {f : ι → K} {w : ι → Nat} {items : List ι} {quantity : List Nat → K}
    (h : ∀ p : K → Bool, weigh p (items.map fun i ↦ AddMonoidAlgebra.single (f i) (w i)).sum =
      ((rolls spec).filter fun x ↦ p (quantity (List.ofFn x)) = true).card) :
    Counts spec (items.foldl (fun t i ↦ t.record (f i) (w i)) Tally.empty) quantity := by
  constructor
  · intro p
    rw [Tally.weightWhere_eq, Tally.series_foldl_record, Tally.series_empty, zero_add, h p]
  · exact Tally.positive_empty.foldl_record f w items
  · rw [Tally.total_foldl_record, h, ← card_rolls]
    congr 1
    exact Finset.filter_true_of_mem fun _ _ ↦ rfl

open Classical in
/-- The share of the vectors of answers that satisfy a property. -/
noncomputable def frequency (spec : Spec) (event : List Nat → Prop) : Probability :=
  ((rolls spec).filter fun x ↦ event (List.ofFn x)).card /
    (spec.faces.size : Probability) ^ spec.count

/-- Properties that agree on all vectors have the same share. -/
theorem frequency_congr {spec : Spec} {p q : List Nat → Prop}
    (h : ∀ answers : List Nat, answers.length = spec.count →
      (∀ answer ∈ answers, 1 ≤ answer ∧ answer ≤ spec.faces.size) → (p answers ↔ q answers)) :
    frequency spec p = frequency spec q := by
  classical
  have same : ((rolls spec).filter fun x ↦ p (List.ofFn x)) =
      (rolls spec).filter fun x ↦ q (List.ofFn x) :=
    Finset.filter_congr fun x hx ↦ h (List.ofFn x) List.length_ofFn (within_of_mem_rolls hx)
  unfold frequency
  rw [same]

namespace Counts

variable {K : Type} {spec : Spec} {t : Tally K} {quantity : List Nat → K}

/-- The mass of a set of values is the share of the vectors whose quantity is in it. -/
theorem massWhere_ofTally (h : Counts spec t quantity) (p : K → Bool) :
    (Distribution.ofTally t).massWhere p = frequency spec fun answers ↦ p (quantity answers) := by
  rw [Distribution.massWhere_ofTally, h.weight, h.total, Nat.cast_pow, frequency]
  congr

/-- A set of values has a stored member exactly if some vector has its quantity in the set. -/
theorem exists_mem_keys_iff (h : Counts spec t quantity) (p : K → Bool) :
    (∃ k ∈ Table.keys t.counts, p k = true) ↔
      ∃ x ∈ rolls spec, p (quantity (List.ofFn x)) = true := by
  rw [← Tally.weightWhere_pos_iff h.positive, h.weight, Finset.card_pos]
  simp only [Finset.Nonempty, Finset.mem_filter]

end Counts

section Single

variable {spec : Spec} {numbers : List Value} (h : spec.faces.numbers? = some numbers)

include h

/-- The boosted numbers are those that the answers bring up in turn. -/
theorem map_boosted :
    numbers.map spec.modifiers.boost.apply =
      (List.range spec.faces.size).map fun i ↦ spec.boosted (i + 1) := by
  have hn : spec.faces.isNumeric = true := FaceSet.isNumeric_of_numbers? h
  rw [FaceSet.numbers?_of_isNumeric hn, Option.some.injEq] at h
  rw [← h, List.map_map]
  rfl

omit h in
private theorem sum_range_succ_eq {M : Type} [AddCommMonoid M] (g : Nat → M) (n : Nat) :
    ((List.range n).map fun i ↦ g (i + 1)).sum = ∑ a ∈ Finset.Icc 1 n, g a := by
  induction n with
  | zero => rfl
  | succ n ih =>
    rw [List.range_succ, List.map_append, List.sum_append, ih,
      Finset.sum_Icc_succ_top (Nat.le_add_left 1 n)]
    simp

/-- One die adds up the quantities of its boosted faces, one for each answer. -/
theorem sum_single {M : Type} [AddCommMonoid M] {f : Value → Nat → M} (h0 : ∀ k, f k 0 = 0)
    (hf : ∀ k v w, f k (v + w) = f k v + f k w) :
    ((single spec numbers).counts.map fun e ↦ f e.1 e.2).sum =
      ∑ a ∈ Finset.Icc 1 spec.faces.size, f (spec.boosted a) 1 := by
  rw [single, Tally.sum_ofList h0 hf, map_boosted h, List.map_map]
  exact sum_range_succ_eq (fun a ↦ f (spec.boosted a) 1) spec.faces.size

/-- One die has one term for each answer. -/
theorem series_single :
    (single spec numbers).series =
      ∑ a ∈ Finset.Icc 1 spec.faces.size, AddMonoidAlgebra.single (spec.boosted a) 1 :=
  sum_single h single_zero single_add

/-- One die has as many outcomes as faces. -/
theorem total_single : (single spec numbers).total = spec.faces.size := by
  rw [single, Tally.total_ofList, List.length_map, FaceSet.length_of_numbers? h]

omit h in
/-- A power of a sum over the answers expands into all vectors of answers. -/
theorem sum_pow_rolls {R : Type} [CommSemiring R] (spec : Spec) (f : Nat → R) :
    (∑ a ∈ Finset.Icc 1 spec.faces.size, f a) ^ spec.count = ∑ x ∈ rolls spec, ∏ i, f (x i) :=
  Finset.sum_pow' (Finset.Icc 1 spec.faces.size) f spec.count

end Single

/-- Vectors of one more answer have it last. -/
private theorem sum_vectors_succ {M : Type} [AddCommMonoid M] (s : Finset Nat) (n : Nat)
    (g : List Nat → M) :
    ∑ x ∈ Fintype.piFinset fun _ : Fin (n + 1) ↦ s, g (List.ofFn x) =
      ∑ x ∈ Fintype.piFinset fun _ : Fin n ↦ s, ∑ a ∈ s, g (List.ofFn x ++ [a]) := by
  rw [Finset.sum_sigma']
  refine Finset.sum_nbij' (fun x ↦ ⟨Fin.init x, x (Fin.last n)⟩) (fun p ↦ Fin.snoc p.1 p.2)
    ?maps ?back (fun x _ ↦ Fin.snoc_init_self x) ?last ?same
  case maps =>
    intro x hx
    rw [Fintype.mem_piFinset] at hx
    exact Finset.mem_sigma.mpr ⟨Fintype.mem_piFinset.mpr fun i ↦ hx i.castSucc, hx (Fin.last n)⟩
  case back =>
    intro p hp
    obtain ⟨front, final⟩ := Finset.mem_sigma.mp hp
    rw [Fintype.mem_piFinset] at front ⊢
    intro i
    cases i using Fin.lastCases with
    | last => rwa [Fin.snoc_last]
    | cast i =>
      rw [Fin.snoc_castSucc]
      exact front i
  case last =>
    intro p _
    rw [Fin.init_snoc, Fin.snoc_last]
  case same =>
    intro x _
    rw [List.ofFn_succ', List.concat_eq_append]
    rfl

/-- Independent dice have one term for each vector of answers, with the sum from the first on. -/
theorem series_power_vectors {K : Type} [LT K] [DecidableLT K] [Std.Trichotomous (α := K) (· < ·)]
    [Add K] {t : Tally K} {s : Finset Nat} {f : Nat → K} {total : List Nat → K}
    (ht : t.series = ∑ a ∈ s, AddMonoidAlgebra.single (f a) 1) (one : ∀ a, total [a] = f a)
    (concat : ∀ answers a, total (answers ++ [a]) = total answers + f a) (n : Nat) :
    (t.power (n + 1)).series = ∑ x ∈ Fintype.piFinset fun _ : Fin (n + 1) ↦ s,
      AddMonoidAlgebra.single (total (List.ofFn x)) 1 := by
  induction n with
  | zero =>
    rw [Tally.power, ht, sum_vectors_succ s 0 fun answers ↦ AddMonoidAlgebra.single (total answers) 1]
    simp only [Fintype.piFinset_of_isEmpty, Finset.univ_unique, Finset.sum_singleton,
      List.ofFn_zero, List.nil_append, one]
  | succ n ih =>
    rw [Tally.power, Tally.series_convolve, ih, ht,
      sum_vectors_succ s (n + 1) fun answers ↦ AddMonoidAlgebra.single (total answers) 1,
      Finset.sum_mul_sum]
    simp only [single_mul_single, Nat.mul_one, concat]

section Independent

variable {spec : Spec} {numbers : List Value} (h : spec.faces.numbers? = some numbers)
  (hc : 0 < spec.count)

include h hc

/-- Convolution has one term for each vector of answers, with the sum of the boosted numbers. -/
theorem series_power_rolls :
    (@Tally.power Value _ _ Value.wrapping (single spec numbers) spec.count).series =
      ∑ x ∈ rolls spec,
        AddMonoidAlgebra.single (Value.sum ((List.ofFn x).map spec.boosted)) 1 := by
  obtain ⟨n, count⟩ := Nat.exists_eq_add_of_le' hc
  have one (a : Nat) : Value.sum ([a].map spec.boosted) = spec.boosted a :=
    Value.sum_singleton (spec.narrow_boosted a)
  have concat (answers : List Nat) (a : Nat) :
      Value.sum ((answers ++ [a]).map spec.boosted) =
        Value.plus (Value.sum (answers.map spec.boosted)) (spec.boosted a) := by
    rw [List.map_append, List.map_singleton, Value.sum_concat]
  unfold rolls
  rw [count]
  exact @series_power_vectors Value _ _ _ Value.wrapping _ _ _
    (fun answers ↦ Value.sum (answers.map spec.boosted)) (series_single h) one concat n

/-- Convolution counts the sums of the boosted numbers. -/
theorem counts_power :
    Counts spec (@Tally.power Value _ _ Value.wrapping (single spec numbers) spec.count)
      fun answers ↦ Value.sum (answers.map spec.boosted) := by
  constructor
  · intro p
    rw [Tally.weightWhere_eq, series_power_rolls h hc, weigh_sum_single]
  · exact @Tally.Positive.power Value _ _ Value.wrapping _ (Tally.positive_ofList _) spec.count
  · rw [@Tally.total_power Value _ _ Value.wrapping _ _ hc, total_single h]

omit h hc in
private theorem countP_eq_sum {α : Type} (p : α → Bool) (values : List α) :
    values.countP p = (values.map fun v ↦ if p v then 1 else 0).sum := by
  induction values with
  | nil => rfl
  | cons v values ih =>
    rw [List.countP_cons, List.map_cons, List.sum_cons, ih, Nat.add_comm]

omit hc in
/-- One die has its hits as single successes and its other faces as none. -/
private theorem sum_hits (c : Condition) :
    ∑ a ∈ Finset.Icc 1 spec.faces.size,
        AddMonoidAlgebra.single (if c.holds (spec.boosted a) then 1 else 0 : Nat) 1 =
      AddMonoidAlgebra.single 1 ((single spec numbers).weightWhere c.holds) +
        AddMonoidAlgebra.single 0
          ((single spec numbers).total - (single spec numbers).weightWhere c.holds) := by
  have hits : (single spec numbers).weightWhere c.holds =
      ((Finset.Icc 1 spec.faces.size).filter fun a ↦ c.holds (spec.boosted a) = true).card := by
    rw [Tally.weightWhere_eq, series_single h, weigh_sum_single]
  have misses : (single spec numbers).total - (single spec numbers).weightWhere c.holds =
      ((Finset.Icc 1 spec.faces.size).filter fun a ↦ ¬c.holds (spec.boosted a) = true).card := by
    have split := Finset.card_filter_add_card_filter_not (s := Finset.Icc 1 spec.faces.size)
      fun a ↦ c.holds (spec.boosted a) = true
    rw [Nat.card_Icc] at split
    rw [total_single h, hits]
    omega
  rw [misses, hits, ← Finset.sum_filter_add_sum_filter_not (Finset.Icc 1 spec.faces.size)
    fun a ↦ c.holds (spec.boosted a) = true]
  congr 1
  · rw [Finset.sum_congr rfl fun a ha ↦ by rw [if_pos (Finset.mem_filter.mp ha).2],
      Finset.sum_const, smul_single, smul_eq_mul, Nat.mul_one]
  · rw [Finset.sum_congr rfl fun a ha ↦ by rw [if_neg (Finset.mem_filter.mp ha).2],
      Finset.sum_const, smul_single, smul_eq_mul, Nat.mul_one]

omit h hc in
private theorem sum_binomial (n hits misses : Nat) :
    ((List.range (n + 1)).map fun k ↦ AddMonoidAlgebra.single k
        (Pools.choose n k * Nat.pow hits k * Nat.pow misses (n - k))).sum =
      (AddMonoidAlgebra.single 1 hits + AddMonoidAlgebra.single 0 misses) ^ n := by
  rw [add_pow, Pools.sum_map_range]
  apply Finset.sum_congr rfl
  intro k hk
  rw [Finset.mem_range] at hk
  rw [Pools.choose_eq (by omega), single_pow, single_pow, single_mul_single, Nat.pow_eq, Nat.pow_eq,
    mul_comm _ (n.choose k : AddMonoidAlgebra Nat Nat), ← nsmul_eq_mul, smul_single, smul_zero,
    add_zero, smul_eq_mul, smul_eq_mul, mul_one, mul_assoc]

omit hc in
/-- The binomial weights count the hits. -/
theorem counts_binomial (c : Condition) :
    Counts spec (binomial spec.count (single spec numbers) c) fun answers ↦
      (answers.map spec.boosted).countP c.holds := by
  unfold binomial
  rw [List.foldr_eq_foldl_reverse]
  apply counts_foldl_record
  intro p
  rw [← weigh_sum_single, List.map_reverse, List.sum_reverse, sum_binomial, ← sum_hits h c,
    sum_pow_rolls]
  congr 1
  apply Finset.sum_congr rfl
  intro x _
  rw [prod_single, Finset.prod_const_one, List.map_ofFn, countP_eq_sum, List.map_ofFn,
    List.sum_ofFn]
  rfl

end Independent

section Pooled

/-- Pools are the formal sums of the multisets of their values. -/
private noncomputable def pool (v : Value) : AddMonoidAlgebra Nat (Multiset Value) :=
  AddMonoidAlgebra.single {v} 1

/-- The powers of the faces of a pool multiply to the multiset of its values. -/
private theorem monomial_pool (faces : List Value) (counts : List Nat) :
    Pools.monomial pool faces counts =
      AddMonoidAlgebra.single (Pools.expand faces counts : Multiset Value) 1 := by
  induction faces generalizing counts with
  | nil => rfl
  | cons v faces ih =>
    cases counts with
    | nil => rfl
    | cons c counts =>
      have power : pool v ^ c =
          AddMonoidAlgebra.single (List.replicate c v : Multiset Value) 1 := by
        rw [pool, single_pow, one_pow, Multiset.nsmul_singleton, Multiset.coe_replicate]
      have first : Pools.monomial pool (v :: faces) (c :: counts) =
          pool v ^ c * Pools.monomial pool faces counts := List.prod_cons
      rw [first, ih, power, single_mul_single, Nat.mul_one, Multiset.coe_add]
      rfl

private theorem prod_pool {n : Nat} (values : Fin n → Value) :
    ∏ i, pool (values i) =
      AddMonoidAlgebra.single (List.ofFn values : Multiset Value) 1 := by
  unfold pool
  rw [prod_single, Finset.prod_const_one, ← Fin.univ_val_map]
  congr 1
  rw [← Multiset.sum_map_singleton (Finset.univ.val.map values), Multiset.map_map]
  rfl

variable {spec : Spec} {numbers : List Value} (h : spec.faces.numbers? = some numbers)

include h

/-- The pools of a roll with their weights are the multisets of all vectors. -/
private theorem sum_pools :
    ((Pools.all (single spec numbers).counts.length spec.count).map fun counts ↦
        AddMonoidAlgebra.single
          (Pools.expand (Table.keys (single spec numbers).counts) counts : Multiset Value)
          (Pools.weight spec.count (Table.values (single spec numbers).counts) counts)).sum =
      ∑ x ∈ rolls spec,
        AddMonoidAlgebra.single ((List.ofFn x).map spec.boosted : Multiset Value) 1 := by
  have nonempty : (single spec numbers).counts ≠ [] := by
    intro hnil
    have size := sum_single h (f := fun _ w ↦ w) (fun _ ↦ rfl) (fun _ _ _ ↦ rfl)
    rw [hnil, List.map_nil, List.sum_nil, Finset.sum_const, Nat.card_Icc, smul_eq_mul] at size
    have pos := spec.faces.size_pos
    omega
  have faces : ((single spec numbers).counts.map fun e ↦
      (e.2 : AddMonoidAlgebra Nat (Multiset Value)) * pool e.1).sum =
        ∑ a ∈ Finset.Icc 1 spec.faces.size, pool (spec.boosted a) := by
    rw [sum_single h (f := fun v w ↦ (w : AddMonoidAlgebra Nat (Multiset Value)) * pool v)
      (fun _ ↦ by rw [Nat.cast_zero, zero_mul]) (fun _ _ _ ↦ by rw [Nat.cast_add, add_mul])]
    simp only [Nat.cast_one, one_mul]
  have pools := Pools.sum_weight pool nonempty spec.count
  rw [faces, sum_pow_rolls] at pools
  convert pools using 1
  · congr 1
    apply List.map_congr_left
    intro counts _
    rw [monomial_pool, ← nsmul_eq_mul, smul_single, smul_eq_mul, Nat.mul_one]
  · apply Finset.sum_congr rfl
    intro x _
    rw [prod_pool, List.map_ofFn]
    rfl

variable {K : Type} [LT K] [DecidableLT K] [Std.Trichotomous (α := K) (· < ·)]

/-- The enumeration of pools counts every quantity that does not depend on the order of the
boosted numbers. -/
theorem counts_pools {g : List Value → K} (hg : ∀ l l' : List Value, l.Perm l' → g l = g l') :
    Counts spec
      ((Pools.all (single spec numbers).counts.length spec.count).foldl
        (fun t counts ↦ t.record (g (Pools.expand (Table.keys (single spec numbers).counts) counts))
          (Pools.weight spec.count (Table.values (single spec numbers).counts) counts))
        Tally.empty)
      fun answers ↦ g (answers.map spec.boosted) := by
  apply counts_foldl_record
  intro p
  have pools := congrArg (weigh fun m : Multiset Value ↦ p (Quotient.lift g hg m)) (sum_pools h)
  rw [weigh_sum_single] at pools
  rw [map_list_sum, List.map_map] at pools ⊢
  simp only [Function.comp_def, weigh_single] at pools ⊢
  exact pools

end Pooled

end DicePool.Analysis
