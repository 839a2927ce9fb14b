import DicePool.Analysis.Exact
import DicePool.Proofs.Analysis.Pools
import DicePool.Proofs.Tally.Series

/-!
# Binomial weights

After each round the product for a binomial coefficient is itself a binomial coefficient, which is
why no division leaves a remainder and why the shorter side can be taken. Numbers of successes weigh
a binomial coefficient times powers of the hits and the misses, so that together they weigh as much
as all rolls.
-/

namespace DicePool

namespace Pools

/-- The division of a round is exact. -/
theorem dvd_chooseAfter_mul (n i : Nat) : i + 1 ∣ chooseAfter n i * (n - i) := by
  rw [chooseAfter_eq, ← Nat.choose_succ_right_eq]
  exact Nat.dvd_mul_left _ _

/-- The binomial weights of hits among faces add up to the power of the faces. -/
theorem sum_choose_mul_pow (n : Nat) {hits faces : Nat} (h : hits ≤ faces) :
    ∑ k ∈ Finset.range (n + 1), choose n k * hits ^ k * (faces - hits) ^ (n - k) =
      faces ^ n := by
  rw [← Nat.add_sub_cancel' h, Nat.add_sub_cancel_left, add_pow]
  apply Finset.sum_congr rfl
  intro k hk
  rw [choose_eq (Nat.lt_succ_iff.mp (Finset.mem_range.mp hk)), Nat.cast_id]
  ring

end Pools

namespace Analysis

variable (n : Nat) (die : Tally Value) (c : Condition)

/-- The successes have one term for each number of them. -/
theorem series_binomial :
    (binomial n die c).series = ∑ k ∈ Finset.range (n + 1), AddMonoidAlgebra.single k
      (Pools.choose n k * die.weightWhere c.holds ^ k *
        (die.total - die.weightWhere c.holds) ^ (n - k)) := by
  unfold binomial
  rw [List.foldr_eq_foldl_reverse, Tally.series_foldl_record, Tally.series_empty, zero_add,
    List.map_reverse, List.sum_reverse, Pools.sum_map_range]
  rfl

/-- A number of successes weighs its binomial coefficient times powers of the hits and misses. -/
theorem weight_binomial {k : Nat} (h : k ≤ n) :
    (binomial n die c).weight k = Pools.choose n k * die.weightWhere c.holds ^ k *
      (die.total - die.weightWhere c.holds) ^ (n - k) := by
  rw [Tally.weight, Tally.weightWhere_eq, series_binomial, map_sum]
  simp only [weigh_single, decide_eq_true_eq, Finset.sum_ite_eq']
  rw [if_pos (Finset.mem_range.mpr (Nat.lt_succ_of_le h))]

/-- All numbers of successes together weigh as much as hits and misses allow. -/
theorem total_binomial (h : die.weightWhere c.holds ≤ die.total) :
    (binomial n die c).total = die.total ^ n := by
  unfold binomial
  rw [List.foldr_eq_foldl_reverse, Tally.total_foldl_record, List.map_reverse, List.sum_reverse,
    Pools.sum_map_range, map_sum]
  simp only [weigh_single, if_true, Nat.pow_eq]
  exact Pools.sum_choose_mul_pow n h

/-- After some rounds the product is the binomial coefficient for that number of them, and each
round divides without remainder. The product that is made from the shorter side is the binomial
coefficient of what is chosen, and would be the same from its own side. Binomial coefficients times
powers of hits and misses add up to the power of the faces, and they are the weights of the numbers
of successes. -/
theorem binomial_exact (n : Nat) :
    (∀ i, Pools.chooseAfter n i = n.choose i ∧ i + 1 ∣ Pools.chooseAfter n i * (n - i) ∧
      Pools.chooseAfter n (i + 1) = Pools.chooseAfter n i * (n - i) / (i + 1)) ∧
    (∀ k, k ≤ n → Pools.choose n k = n.choose k ∧
      Pools.chooseAfter n (min k (n - k)) = Pools.chooseAfter n k) ∧
    (∀ hits faces, hits ≤ faces →
      ∑ k ∈ Finset.range (n + 1), Pools.choose n k * hits ^ k * (faces - hits) ^ (n - k) =
        faces ^ n) ∧
    ∀ (die : Tally Value) (c : Condition), die.WellFormed →
      die.weightWhere c.holds ≤ die.total ∧
      (∀ k, k ≤ n → (binomial n die c).weight k = Pools.choose n k * die.weightWhere c.holds ^ k *
        (die.total - die.weightWhere c.holds) ^ (n - k)) ∧
      (binomial n die c).total = die.total ^ n ∧
      ∑ k ∈ Finset.range (n + 1), (binomial n die c).weight k = die.total ^ n := by
  refine ⟨fun i ↦ ⟨Pools.chooseAfter_eq n i, Pools.dvd_chooseAfter_mul n i,
    Pools.chooseAfter_succ n i⟩, fun k h ↦ ⟨Pools.choose_eq h, ?_⟩,
    fun hits faces ↦ Pools.sum_choose_mul_pow n, fun die c wellFormed ↦ ?_⟩
  · rw [← Pools.choose, Pools.choose_eq h, Pools.chooseAfter_eq]
  · have hits := wellFormed.weightWhere_le_total c.holds
    refine ⟨hits, fun k ↦ weight_binomial n die c, total_binomial n die c hits, ?_⟩
    rw [← Pools.sum_choose_mul_pow n hits]
    apply Finset.sum_congr rfl
    intro k hk
    exact weight_binomial n die c (Nat.lt_succ_iff.mp (Finset.mem_range.mp hk))

/-- Three dice with six faces, two of which are hits: two successes weigh forty-eight of the two
hundred and sixteen rolls, with a coefficient that is made in one round. -/
theorem binomial_exact_fivesAndSixes :
    let die : Tally Value := Tally.ofList [1, 2, 3, 4, 5, 6]
    let c : Condition := ⟨.greaterEqual, 5⟩
    die.WellFormed ∧ 2 ≤ 3 ∧ Pools.choose 3 2 = Nat.choose 3 2 ∧
      Pools.chooseAfter 3 1 = Pools.chooseAfter 3 2 ∧ (binomial 3 die c).weight 2 = 48 ∧
      ∑ k ∈ Finset.range 4, (binomial 3 die c).weight k = 216 ∧
      2 ≤ 6 ∧ ∑ k ∈ Finset.range 4, Pools.choose 3 k * 2 ^ k * 4 ^ (3 - k) = 216 := by
  intro die c
  have wellFormed : die.WellFormed := Tally.wellFormed_ofList _
  have faces : die.total ^ 3 = 216 := by rw [Tally.total_ofList]; rfl
  obtain ⟨_, chosen, powers, successes⟩ := binomial_exact 3
  obtain ⟨coefficient, side⟩ := chosen 2 (by decide)
  obtain ⟨_, weights, _, sum⟩ := successes die c wellFormed
  refine ⟨wellFormed, by decide, coefficient, side, (weights 2 (by decide)).trans ?_,
    sum.trans faces, by decide, powers 2 6 (by decide)⟩
  decide +kernel

end Analysis
end DicePool
