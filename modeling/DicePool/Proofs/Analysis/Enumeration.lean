import DicePool.Proofs.Analysis.Pools

/-!
# The order of visits

The lists of counts that are visited ascend lexicographically, so none is visited twice, and every
list with a count for each face and the dice as its sum is among them. The buffer the counts are
filled into is zero before the visits and after them.
-/

namespace DicePool.Pools

/-- Every list with a count for each face that adds up to the dice is a pool. -/
theorem mem_all_of_sum {faces dice : Nat} (h : 0 < faces) {counts : List Nat}
    (length : counts.length = faces) (sum : counts.sum = dice) : counts ∈ all faces dice := by
  induction faces, dice using all.induct generalizing counts with
  | case1 dice => exact absurd h (Nat.lt_irrefl 0)
  | case2 dice =>
    obtain ⟨c, rfl⟩ := List.length_eq_one_iff.mp length
    rw [List.sum_singleton] at sum
    rw [all, sum]
    exact List.mem_singleton_self _
  | case3 faces dice ih =>
    obtain ⟨c, rest, rfl⟩ := List.exists_cons_of_length_eq_add_one length
    rw [List.sum_cons] at sum
    rw [all, List.mem_flatMap]
    have others : rest ∈ all (faces + 1) (dice - c) :=
      ih c (Nat.succ_pos faces) (Nat.succ.inj length) (by omega)
    exact ⟨c, List.mem_range.mpr (by omega), List.mem_map_of_mem others⟩

/-- The pools are the lists with a count for each face that add up to the dice. -/
theorem mem_all_iff {faces : Nat} (h : 0 < faces) (dice : Nat) (counts : List Nat) :
    counts ∈ all faces dice ↔ counts.length = faces ∧ counts.sum = dice :=
  ⟨mem_all, fun ⟨length, sum⟩ ↦ mem_all_of_sum h length sum⟩

/-- The pools ascend lexicographically. -/
theorem pairwise_lt_all (faces dice : Nat) : (all faces dice).Pairwise (· < ·) := by
  induction faces, dice using all.induct with
  | case1 dice => exact List.Pairwise.nil
  | case2 dice => exact List.pairwise_singleton _ _
  | case3 faces dice ih =>
    rw [all, List.pairwise_flatMap]
    constructor
    · -- pools with the same first count are ordered by the later ones
      intro c _
      rw [List.pairwise_map]
      exact (ih c).imp fun later ↦ List.cons_lt_cons_iff.mpr (.inr ⟨rfl, later⟩)
    · apply List.pairwise_lt_range.imp
      intro c c' less counts hc counts' hc'
      obtain ⟨rest, _, rfl⟩ := List.mem_map.mp hc
      obtain ⟨rest', _, rfl⟩ := List.mem_map.mp hc'
      exact List.cons_lt_cons_iff.mpr (.inl less)

/-- No pool is visited twice. -/
theorem nodup_all (faces dice : Nat) : (all faces dice).Nodup := (pairwise_lt_all faces dice).nodup

/-- Over a buffer with at least one slot that holds zero everywhere, each list of counts of the
buffer's length that adds up to the dice is visited once and no other list is, in ascending
lexicographic order, and the buffer holds zero everywhere again. -/
theorem visitFrom_visits_once {slots : Nat} (h : 0 < slots) (dice : Nat) :
    ∃ pools : List (List Nat),
      (∀ pool, pools.count pool = if pool.length = slots ∧ pool.sum = dice then 1 else 0) ∧
      pools.Pairwise (· < ·) ∧
      ∀ counts : Vector Nat slots, (∀ c ∈ counts, c = 0) →
        ∀ (β : Type) (visit : β → List Nat → β) (acc : β),
          visitFrom visit 0 dice h counts acc =
            (Vector.replicate slots 0, pools.foldl visit acc) := by
  refine ⟨all slots dice, fun pool ↦ ?_, pairwise_lt_all slots dice,
    fun counts zero β visit acc ↦ ?_⟩
  · rw [(nodup_all slots dice).count]
    simp only [mem_all_iff h]
  · rw [Vector.eq_replicate_of_mem zero, visitFrom_eq visit dice h zeroFrom_replicate]
    simp only [List.take_zero, List.nil_append, Nat.sub_zero]

/-- Two dice over two faces are visited as three pools, from both dice on the second face to both on
the first. -/
theorem visitFrom_visits_once_twoFaces :
    0 < 2 ∧ (∀ c ∈ Vector.replicate 2 0, c = 0) ∧
      ∀ (β : Type) (visit : β → List Nat → β) (acc : β),
        visitFrom visit 0 2 (by decide) (Vector.replicate 2 0) acc =
          (Vector.replicate 2 0, visit (visit (visit acc [0, 2]) [1, 1]) [2, 0]) := by
  have zero : ∀ c ∈ Vector.replicate 2 0, c = 0 := by decide
  obtain ⟨pools, _, _, visited⟩ := visitFrom_visits_once (by decide : 0 < 2) 2
  have log : (visitFrom (fun visits pool ↦ pool :: visits) 0 2 (by decide) (Vector.replicate 2 0)
      []).2 = [[2, 0], [1, 1], [0, 2]] := by decide +kernel
  have reversed : pools.reverse = [[2, 0], [1, 1], [0, 2]] := by
    rw [visited _ zero] at log
    simpa only [List.foldl_flip_cons_eq_append', List.append_nil] using log
  refine ⟨by decide, zero, fun β visit acc ↦ ?_⟩
  rw [visited _ zero, List.reverse_eq_iff.mp reversed]
  rfl

end DicePool.Pools
