import DicePool.Proofs.Analysis.Pools
import DicePool.Proofs.Tally.Series
import Mathlib.Algebra.BigOperators.Fin
import Mathlib.Algebra.GroupWithZero.Action.Pi
import Mathlib.Data.Nat.Choose.Multinomial

/-!
# Weights are numbers of rolls

A roll gives each die a side, and a face has as many sides as it weighs. The weight of a pool is the
multinomial coefficient of its counts times the powers of the weights of its faces: this is how many
rolls show each face as often as it is counted, and no division on the way leaves a remainder.
-/

namespace DicePool.Pools

open scoped Nat

variable {slots dice : Nat}

private theorem dvd_foldl_take {weights counts : List Nat} (h : weights.length = counts.length)
    (i m : Nat) :
    ((counts.drop i).sum)! ∣ ((weights.take i).zip (counts.take i)).foldl
      (fun w e ↦ w / factorial e.2 * Nat.pow e.1 e.2) (m * (counts.sum)!) := by
  induction i generalizing weights counts m with
  | zero => exact Nat.dvd_mul_left _ m
  | succ i ih =>
    cases weights with
    | nil =>
      obtain rfl := List.eq_nil_of_length_eq_zero h.symm
      exact Nat.one_dvd _
    | cons w weights =>
      obtain ⟨c, counts, rfl⟩ := List.exists_cons_of_length_eq_add_one h.symm
      rw [List.drop_succ_cons, List.take_succ_cons, List.take_succ_cons, List.zip_cons_cons,
        List.foldl_cons, List.sum_cons, mul_factorial_div]
      exact ih (Nat.succ.inj h) _

/-- After some faces, the weight is a multiple of the factorial of the dice that are left. -/
theorem dvd_weight_take {weights counts : List Nat} (h : weights.length = counts.length)
    (sum : counts.sum = dice) (i : Nat) :
    ((counts.drop i).sum)! ∣ weight dice (weights.take i) (counts.take i) := by
  have multiple := dvd_foldl_take h i 1
  rwa [Nat.one_mul, sum, ← factorial_eq dice] at multiple

/-- The next face divides the weight by the factorial of its count and multiplies it by the power of
its own weight. -/
theorem weight_take_succ (dice : Nat) {weights counts : List Nat} {i : Nat}
    (hw : i < weights.length) (hc : i < counts.length) :
    weight dice (weights.take (i + 1)) (counts.take (i + 1)) =
      weight dice (weights.take i) (counts.take i) / (counts[i])! * weights[i] ^ counts[i] := by
  have lengths : (weights.take i).length = (counts.take i).length := by
    rw [List.length_take_of_le hw.le, List.length_take_of_le hc.le]
  rw [weight, List.take_succ_eq_append_getElem hw, List.take_succ_eq_append_getElem hc,
    List.zip_append lengths, List.foldl_append, ← weight, List.zip_cons_cons, List.foldl_cons,
    List.zip_nil_left, List.foldl_nil, factorial_eq, Nat.pow_eq]

/-- The factorial of the next count divides the weight after the faces before it. -/
theorem factorial_dvd_weight_take {weights counts : List Nat} (h : weights.length = counts.length)
    (sum : counts.sum = dice) {i : Nat} (hc : i < counts.length) :
    (counts[i])! ∣ weight dice (weights.take i) (counts.take i) := by
  apply dvd_trans (Nat.factorial_dvd_factorial _) (dvd_weight_take h sum i)
  rw [List.drop_eq_getElem_cons hc, List.sum_cons]
  exact Nat.le_add_right _ _

private theorem shares_mul_prod (weights counts : Fin slots → Nat) :
    shares (List.ofFn weights) (List.ofFn counts) * ∏ i, (counts i)! =
      (∑ i, counts i)! * ∏ i, weights i ^ counts i := by
  induction slots with
  | zero => rfl
  | succ slots ih =>
    have later := ih (fun i ↦ weights i.succ) fun i ↦ counts i.succ
    -- the dice of the first face are placed among all dice
    have places := Nat.add_choose_mul_factorial_mul_factorial (counts 0) (∑ i, counts (Fin.succ i))
    rw [List.ofFn_succ, List.ofFn_succ, shares, List.sum_ofFn, Fin.prod_univ_succ,
      Fin.prod_univ_succ, Fin.sum_univ_succ, ← places, Nat.choose_symm_add]
    generalize (counts 0 + ∑ i, counts (Fin.succ i)).choose (∑ i, counts (Fin.succ i)) = first
    generalize shares (List.ofFn fun i ↦ weights (Fin.succ i)) _ = others at later ⊢
    calc first * weights 0 ^ counts 0 * others * ((counts 0)! * ∏ i, (counts (Fin.succ i))!)
        = first * weights 0 ^ counts 0 * (counts 0)! *
            (others * ∏ i, (counts (Fin.succ i))!) := by ring
      _ = first * (counts 0)! * (∑ i, counts (Fin.succ i))! *
            (weights 0 ^ counts 0 * ∏ i, weights (Fin.succ i) ^ counts (Fin.succ i)) := by
          rw [later]
          ring

/-- A pool weighs the multinomial coefficient of its counts times the powers of its weights. -/
theorem weight_ofFn (weights counts : Fin slots → Nat) (h : ∑ i, counts i = dice) :
    weight dice (List.ofFn weights) (List.ofFn counts) =
      Nat.multinomial Finset.univ counts * ∏ i, weights i ^ counts i := by
  have product := shares_mul_prod weights counts
  rw [← Nat.multinomial_spec, mul_comm, mul_assoc] at product
  rw [weight_eq_shares (by rw [List.length_ofFn, List.length_ofFn]) (List.sum_ofFn.trans h)]
  exact Nat.eq_of_mul_eq_mul_left (Finset.prod_pos fun i _ ↦ Nat.factorial_pos (counts i)) product

/-- The sides of a die, a face having as many of them as it weighs. -/
abbrev Side (weights : Fin slots → Nat) : Type := (i : Fin slots) × Fin (weights i)

/-- How many dice of a roll show each face. -/
def shown {weights : Fin slots → Nat} (roll : Fin dice → Side weights) (i : Fin slots) : Nat :=
  (Finset.univ.filter fun d ↦ (roll d).1 = i).card

section Terms

open AddMonoidAlgebra

/-- A face of a die, as a formal term. -/
private noncomputable def face (i : Fin slots) : AddMonoidAlgebra Nat (Fin slots → Nat) :=
  single (Pi.single i 1) 1

private theorem prod_face {weights : Fin slots → Nat} (roll : Fin dice → Side weights) :
    ∏ d, face (roll d).1 = single (shown roll) 1 := by
  unfold face
  rw [prod_single, Finset.prod_const_one]
  congr 1
  funext i
  rw [Finset.sum_apply, shown, Finset.card_filter]
  simp only [Pi.single_apply, eq_comm]

private theorem prod_face_pow (weights counts : Fin slots → Nat) :
    ∏ i, (weights i • face i) ^ counts i = single counts (∏ i, weights i ^ counts i) := by
  have power (i : Fin slots) : (weights i • face i) ^ counts i =
      single (Pi.single i (counts i)) (weights i ^ counts i) := by
    have times : counts i • (Pi.single i 1 : Fin slots → Nat) = Pi.single i (counts i) := by
      rw [← Pi.single_smul', smul_eq_mul, mul_one]
    rw [face, smul_single, smul_eq_mul, mul_one, single_pow, times]
  simp only [power]
  rw [prod_single, Finset.univ_sum_single]

/-- The rolls of dice are the terms of a power of the weighted sum of the faces. -/
private theorem sum_face_pow (weights : Fin slots → Nat) (dice : Nat) :
    (∑ i, weights i • face i) ^ dice =
      ∑ roll : Fin dice → Side weights, single (shown roll) 1 := by
  have sides : ∑ i, weights i • face i = ∑ s : Side weights, face s.1 := by
    rw [Fintype.sum_sigma]
    exact Finset.sum_congr rfl fun i _ ↦ (Fin.sum_const (weights i) (face i)).symm
  rw [sides, Fintype.sum_pow]
  exact Finset.sum_congr rfl fun roll _ ↦ prod_face roll

/-- As many rolls show each face as often as it is counted as the formula says. -/
theorem card_shown (weights counts : Fin slots → Nat) (h : ∑ i, counts i = dice) :
    (Finset.univ.filter fun roll : Fin dice → Side weights ↦ shown roll = counts).card =
      Nat.multinomial Finset.univ counts * ∏ i, weights i ^ counts i := by
  have terms := congrArg (weigh fun c ↦ decide (c = counts)) (sum_face_pow weights dice)
  rw [weigh_sum_single, Finset.sum_pow_eq_sum_piAntidiag, map_sum] at terms
  simp only [prod_face_pow, ← nsmul_eq_mul, smul_single, weigh_single, decide_eq_true_eq,
    Finset.sum_ite_eq', smul_eq_mul] at terms
  rw [if_pos (Finset.mem_piAntidiag.mpr ⟨h, fun i _ ↦ Finset.mem_univ i⟩)] at terms
  exact terms.symm

end Terms

/-- The weight starts from the factorial of the dice. For counts that add up to the dice, each face
in turn divides it by the factorial of its count, without remainder, and multiplies it by the power
of the weight of the face. What results is the factorial of the dice divided by those of the counts,
without remainder, times the powers of the weights, and it is the number of rolls that show each
face as often as it is counted. Over all counts, the weights add up to the number of all rolls. -/
theorem weight_counts_rolls (weights : Fin slots → Nat) (dice : Nat) :
    weight dice [] [] = dice ! ∧
    (∀ counts : Fin slots → Nat, ∑ i, counts i = dice →
      (∀ i : Fin slots,
        (counts i)! ∣ weight dice ((List.ofFn weights).take i) ((List.ofFn counts).take i) ∧
        weight dice ((List.ofFn weights).take (i + 1)) ((List.ofFn counts).take (i + 1)) =
          weight dice ((List.ofFn weights).take i) ((List.ofFn counts).take i) / (counts i)! *
            weights i ^ counts i) ∧
      ∏ i, (counts i)! ∣ dice ! ∧
      weight dice (List.ofFn weights) (List.ofFn counts) =
        dice ! / (∏ i, (counts i)!) * ∏ i, weights i ^ counts i ∧
      weight dice (List.ofFn weights) (List.ofFn counts) =
        (Finset.univ.filter fun roll : Fin dice → Side weights ↦ shown roll = counts).card) ∧
    ∑ counts ∈ Finset.piAntidiag (Finset.univ : Finset (Fin slots)) dice,
      weight dice (List.ofFn weights) (List.ofFn counts) = (∑ i, weights i) ^ dice := by
  refine ⟨factorial_eq dice, fun counts h ↦ ⟨fun i ↦ ⟨?_, ?_⟩, ?_, ?_, ?_⟩, ?_⟩
  · have lengths : (List.ofFn weights).length = (List.ofFn counts).length := by
      rw [List.length_ofFn, List.length_ofFn]
    have divides := factorial_dvd_weight_take lengths (List.sum_ofFn.trans h)
      (List.length_ofFn.symm ▸ i.isLt : i.1 < (List.ofFn counts).length)
    rwa [List.getElem_ofFn] at divides
  · rw [weight_take_succ dice (List.length_ofFn.symm ▸ i.isLt) (List.length_ofFn.symm ▸ i.isLt),
      List.getElem_ofFn, List.getElem_ofFn]
  · rw [← h]
    exact Nat.prod_factorial_dvd_factorial_sum Finset.univ counts
  · rw [weight_ofFn weights counts h, Nat.multinomial, h]
  · rw [weight_ofFn weights counts h, card_shown weights counts h]
  · rw [Finset.sum_pow_eq_sum_piAntidiag]
    apply Finset.sum_congr rfl
    intro counts pool
    rw [weight_ofFn weights counts (Finset.mem_piAntidiag.mp pool).1, Nat.cast_id]

/-- Three dice with two sides for their first face and one for the second: six of their rolls show
the second face twice, and there are twenty-seven rolls. -/
theorem weight_counts_rolls_twoSides :
    ∑ i, ![1, 2] i = 3 ∧ weight 3 [2, 1] [1, 2] = 6 ∧ 2 ! ∣ weight 3 [2] [1] ∧
      (Finset.univ.filter fun roll : Fin 3 → Side ![2, 1] ↦ shown roll = ![1, 2]).card = 6 ∧
      ∑ counts ∈ Finset.piAntidiag (Finset.univ : Finset (Fin 2)) 3,
        weight 3 (List.ofFn ![2, 1]) (List.ofFn counts) = 27 := by
  have dice : ∑ i, ![1, 2] i = 3 := by decide
  obtain ⟨_, pools, total⟩ := weight_counts_rolls ![2, 1] 3
  obtain ⟨steps, _, formula, rolls⟩ := pools ![1, 2] dice
  have six : weight 3 [2, 1] [1, 2] = 6 := formula
  exact ⟨dice, six, (steps 1).1, rolls.symm.trans six, total⟩

end DicePool.Pools
