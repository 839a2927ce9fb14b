import DicePool.Analysis.Pools
import DicePool.Table
import Mathlib.Data.Nat.Choose.Sum

/-!
# Weights of pools

The pools of a number of dice are all lists of counts with that sum. They are visited in a buffer
that every visit finds filled with the counts and that is zero again after the last one. A pool
weighs the multinomial coefficient of its counts times the powers of the weights of its faces.
Summed over all pools the weights expand the power of a sum: this is the multinomial theorem for the
order in which pools are visited.
-/

namespace DicePool.Pools

open scoped Nat

/-- The product of the numbers from one is the factorial. -/
theorem factorial_eq (n : Nat) : factorial n = n ! := by
  induction n with
  | zero => rfl
  | succ n ih => rw [factorial, Nat.factorial_succ, ih]

/-- After a number of rounds the product is the binomial coefficient for that number. -/
theorem chooseAfter_eq (n rounds : Nat) : chooseAfter n rounds = n.choose rounds := by
  induction rounds with
  | zero => exact (Nat.choose_zero_right n).symm
  | succ i ih =>
    rw [chooseAfter_succ, ih, ← Nat.choose_succ_right_eq, Nat.mul_div_cancel _ (Nat.succ_pos i)]

/-- The product from the shorter side is the binomial coefficient. -/
theorem choose_eq {n k : Nat} (h : k ≤ n) : choose n k = n.choose k := by
  rw [choose, chooseAfter_eq]
  by_cases hk : k ≤ n - k
  · rw [Nat.min_eq_left hk]
  · rw [Nat.min_eq_right (by omega), Nat.choose_symm h]

/-- A sum over the list of the first numbers is one over their set. -/
theorem sum_map_range {M : Type} [AddCommMonoid M] (f : Nat → M) (n : Nat) :
    ((List.range n).map f).sum = ∑ i ∈ Finset.range n, f i := rfl

/-- All ways to spread dice over a number of faces, in lexicographic order. -/
def all : (faces dice : Nat) → List (List Nat)
  | 0, _ => []
  | 1, dice => [[dice]]
  | faces + 2, dice =>
    (List.range (dice + 1)).flatMap fun c ↦ (all (faces + 1) (dice - c)).map (c :: ·)

/-- The counts of a pool add up to the dice, one count for each face. -/
theorem mem_all {faces dice : Nat} {counts : List Nat} (h : counts ∈ all faces dice) :
    counts.length = faces ∧ counts.sum = dice := by
  induction faces, dice using all.induct generalizing counts with
  | case1 dice => simp [all] at h
  | case2 dice =>
    rw [all, List.mem_singleton] at h
    simp [h]
  | case3 faces dice ih =>
    rw [all, List.mem_flatMap] at h
    obtain ⟨c, hc, h⟩ := h
    obtain ⟨rest, hr, rfl⟩ := List.mem_map.mp h
    obtain ⟨hl, hs⟩ := ih c hr
    rw [List.mem_range] at hc
    rw [List.length_cons, List.sum_cons, hl, hs]
    omega

/-- There are as many pools as multisets of that many dice over the faces. -/
theorem length_all {faces : Nat} (h : 0 < faces) (dice : Nat) :
    (all faces dice).length = faces.multichoose dice := by
  induction faces, dice using all.induct with
  | case1 dice => exact absurd h (Nat.lt_irrefl 0)
  | case2 dice => exact (Nat.multichoose_one dice).symm
  | case3 faces dice ih =>
    -- the dice that do not show the first face can be any number of them
    have others : ∑ c ∈ Finset.range (dice + 1), (faces + 1).multichoose (dice - c) =
        ∑ c ∈ Finset.range (dice + 1), (faces + 1).multichoose c := by
      rw [← Finset.sum_range_reflect (faces + 1).multichoose]
      rfl
    calc (all (faces + 2) dice).length
        = ∑ c ∈ Finset.range (dice + 1), (faces + 1).multichoose (dice - c) := by
          rw [all, List.length_flatMap, sum_map_range]
          exact Finset.sum_congr rfl fun c _ ↦ by rw [List.length_map, ih c (Nat.succ_pos faces)]
      _ = (dice + (faces + 1)).choose (faces + 1) := by
          rw [others, Nat.sum_range_multichoose]
      _ = (faces + 2).multichoose dice := by
          have slots : faces + 2 + dice - 1 = dice + (faces + 1) := by omega
          rw [Nat.multichoose_eq, slots, Nat.choose_symm_add]

/-- The closed formula counts the pools. -/
theorem number_eq_length {faces : Nat} (h : 0 < faces) (dice : Nat) :
    number faces dice = (all faces dice).length := by
  rw [number, choose_eq (by omega), length_all h, Nat.multichoose_eq, Nat.add_comm dice]

/-- A buffer holds zero from an index on. -/
def ZeroFrom {slots : Nat} (counts : Vector Nat slots) (index : Nat) : Prop :=
  ∀ i (h : i < slots), index ≤ i → counts[i] = 0

section Buffer

variable {slots index : Nat} {counts : Vector Nat slots}

/-- A new buffer holds zero everywhere. -/
theorem zeroFrom_replicate : ZeroFrom (Vector.replicate slots 0) index :=
  fun _ _ _ ↦ Vector.getElem_replicate _

/-- A slot that is filled is passed over. -/
theorem ZeroFrom.set (hz : ZeroFrom counts index) (h : index < slots) (c : Nat) :
    ZeroFrom (counts.set index c) (index + 1) := by
  intro i hi later
  rw [Vector.getElem_set_ne h hi (by omega)]
  exact hz i hi (by omega)

/-- Zero is what the first slot of the zeros holds. -/
theorem ZeroFrom.set_zero (hz : ZeroFrom counts index) (h : index < slots) :
    counts.set index 0 = counts := by
  rw [← hz index h (Nat.le_refl index), Vector.set_getElem_self]

/-- A slot that is filled extends the counts before it. -/
theorem take_toList_set (h : index < slots) (c : Nat) :
    (counts.set index c).toList.take (index + 1) = counts.toList.take index ++ [c] := by
  have within : index < (counts.toList.set index c).length := by
    rwa [List.length_set, Vector.length_toList]
  rw [Vector.toList_set, List.take_succ_eq_append_getElem within, List.getElem_set_self,
    List.take_set_of_le (Nat.le_refl index)]

variable {β : Type}

/-- Rounds that each leave their count in a slot, over all the others as they were, leave some
count there. -/
private theorem foldl_set (h : index < slots)
    (step : Vector Nat slots × β → Nat → Vector Nat slots × β) {visited : β → Nat → β}
    (round : ∀ b acc c, step (counts.set index b, acc) c = (counts.set index c, visited acc c))
    (cs : List Nat) (b : Nat) (acc : β) :
    ∃ b', cs.foldl step (counts.set index b, acc) =
      (counts.set index b', cs.foldl visited acc) := by
  induction cs generalizing b acc with
  | nil => exact ⟨b, rfl⟩
  | cons c cs ih =>
    rw [List.foldl_cons, List.foldl_cons, round]
    exact ih c _

/-- From a buffer that holds zero from an index on, the counts before the index are visited with
every way to spread the dice over the other slots, and the buffer is left as it was. -/
theorem visitFrom_eq (visit : β → List Nat → β) (dice : Nat) (h : index < slots)
    (hz : ZeroFrom counts index) (acc : β) :
    visitFrom visit index dice h counts acc =
      (counts, (all (slots - index) dice).foldl
        (fun acc rest ↦ visit acc (counts.toList.take index ++ rest)) acc) := by
  induction index, dice, h, counts, acc using visitFrom.induct visit with
  | case1 index dice h counts acc ih =>
    rw [visitFrom]
    by_cases last : index + 1 = slots
    · have slot : slots - index = 1 := by omega
      have whole : (counts.set index dice).toList = counts.toList.take index ++ [dice] := by
        rw [← take_toList_set h, List.take_of_length_le (by rw [Vector.length_toList, last])]
      rw [dif_pos last, slot, all, List.foldl_cons, List.foldl_nil]
      dsimp only
      rw [whole, Vector.set_set, hz.set_zero]
    · obtain ⟨others, slot⟩ : ∃ others, slots - index = others + 2 :=
        ⟨slots - index - 2, by omega⟩
      have rest : slots - (index + 1) = others + 1 := by omega
      rw [dif_neg last, slot, all, List.foldl_flatMap]
      -- whatever an earlier round has left in the slot is overwritten
      have round (b : Nat) (acc : β) (c : Nat) :
          visitFrom visit (index + 1) (dice - c) (by omega) ((counts.set index b).set index c) acc =
            (counts.set index c, ((all (others + 1) (dice - c)).map (c :: ·)).foldl
              (fun acc rest ↦ visit acc (counts.toList.take index ++ rest)) acc) := by
        have filled := ih last (counts.set index b, acc) c
        rw [Vector.set_set] at filled ⊢
        rw [filled (hz.set h c), rest, take_toList_set, List.foldl_map]
        simp only [List.append_assoc, List.singleton_append]
      obtain ⟨b, looped⟩ := foldl_set h
        (fun s c ↦ visitFrom visit (index + 1) (dice - c) (by omega) (s.1.set index c) s.2)
        round (List.range (dice + 1)) 0 acc
      rw [hz.set_zero] at looped
      rw [looped, Vector.set_set, hz.set_zero]

end Buffer

/-- Visiting the pools folds over the list of them. -/
theorem fold_eq_foldl {β : Type} (visit : β → List Nat → β) (faces dice : Nat) (acc : β) :
    fold visit faces dice acc = (all faces dice).foldl visit acc := by
  rw [fold]
  split
  · next h =>
    rw [visitFrom_eq visit dice h zeroFrom_replicate]
    simp only [List.take_zero, List.nil_append, Nat.sub_zero]
  · next h =>
    rw [Nat.eq_zero_of_not_pos h]
    rfl

/-- The number of ordered rolls with the given counts: the places of each face are chosen among
those that earlier faces leave. -/
def shares : List Nat → List Nat → Nat
  | w :: weights, c :: counts => (c + counts.sum).choose c * w ^ c * shares weights counts
  | _, _ => 1

/-- The factorial of a count divides that of the dice of a slot and the later ones, and leaves the
factorial of the later dice. -/
theorem mul_factorial_div (m w c later : Nat) :
    m * (c + later)! / factorial c * Nat.pow w c = m * (c + later).choose c * w ^ c * later ! := by
  have exact : m * (c + later)! / c ! = m * (c + later).choose c * later ! := by
    rw [← Nat.add_choose_mul_factorial_mul_factorial c later, ← Nat.choose_symm_add]
    apply Nat.div_eq_of_eq_mul_left (Nat.factorial_pos c)
    ring
  rw [factorial_eq, exact, Nat.pow_eq]
  ring

private theorem foldl_weight (weights counts : List Nat) (h : weights.length = counts.length)
    (m : Nat) :
    (weights.zip counts).foldl (fun w e ↦ w / factorial e.2 * Nat.pow e.1 e.2)
        (m * (counts.sum)!) =
      m * shares weights counts := by
  induction weights generalizing counts m with
  | nil =>
    cases counts with
    | nil => rfl
    | cons c counts => simp at h
  | cons w weights ih =>
    cases counts with
    | nil => simp at h
    | cons c counts =>
      have hl : weights.length = counts.length := by simpa using h
      rw [List.zip_cons_cons, List.foldl_cons, List.sum_cons, mul_factorial_div, ih counts hl,
        shares]
      ring

/-- Every division of a weight is exact. -/
theorem weight_eq_shares {dice : Nat} {weights counts : List Nat}
    (hl : weights.length = counts.length) (hs : counts.sum = dice) :
    weight dice weights counts = shares weights counts := by
  have h := foldl_weight weights counts hl 1
  rwa [Nat.one_mul, Nat.one_mul, hs, ← factorial_eq] at h

private theorem shares_map_mul (a : Nat) {weights counts : List Nat}
    (h : weights.length = counts.length) :
    shares (weights.map (a * ·)) counts = a ^ counts.sum * shares weights counts := by
  induction weights generalizing counts with
  | nil =>
    obtain rfl := List.eq_nil_of_length_eq_zero h.symm
    rfl
  | cons w weights ih =>
    obtain ⟨c, counts, rfl⟩ := List.exists_cons_of_length_eq_add_one h.symm
    rw [List.map_cons, shares, shares, ih (Nat.succ.inj h), List.sum_cons, mul_pow, pow_add]
    ring

/-- A factor of the weights of all faces enters the weight of a pool once for each die. -/
theorem weight_map_mul (a : Nat) {dice : Nat} {weights counts : List Nat}
    (hl : weights.length = counts.length) (hs : counts.sum = dice) :
    weight dice (weights.map (a * ·)) counts = a ^ dice * weight dice weights counts := by
  rw [weight_eq_shares ((List.length_map _).trans hl) hs, weight_eq_shares hl hs,
    shares_map_mul a hl, hs]

section Multinomial

variable {R K : Type} [CommSemiring R]

/-- The product of the powers of all faces by their counts. -/
def monomial (x : K → R) (faces : List K) (counts : List Nat) : R :=
  (List.zipWith (fun k c ↦ x k ^ c) faces counts).prod

private theorem sum_shares (x : K → R) (entries : List (K × Nat)) (h : entries ≠ []) (n : Nat) :
    ((all entries.length n).map fun counts ↦
        (shares (Table.values entries) counts : R) * monomial x (Table.keys entries) counts).sum =
      (entries.map fun e ↦ (e.2 : R) * x e.1).sum ^ n := by
  induction entries generalizing n with
  | nil => exact absurd rfl h
  | cons e rest ih =>
    cases rest with
    | nil => simp [all, shares, monomial, Table.values, Table.keys, mul_pow]
    | cons e' rest =>
      have term (c : Nat) (counts : List Nat) (hs : counts.sum = n - c) (hc : c ≤ n) :
          (shares (Table.values (e :: e' :: rest)) (c :: counts) : R) *
              monomial x (Table.keys (e :: e' :: rest)) (c :: counts) =
            (n.choose c : R) * ((e.2 : R) * x e.1) ^ c *
              ((shares (Table.values (e' :: rest)) counts : R) *
                monomial x (Table.keys (e' :: rest)) counts) := by
        have hn : c + counts.sum = n := by omega
        simp only [Table.values, Table.keys, List.map_cons, shares, monomial,
          List.zipWith_cons_cons, List.prod_cons, hn]
        push_cast
        ring
      have pools (c : Nat) (hc : c ∈ Finset.range (n + 1)) :
          (((all (rest.length + 1) (n - c)).map (c :: ·)).map fun counts ↦
              (shares (Table.values (e :: e' :: rest)) counts : R) *
                monomial x (Table.keys (e :: e' :: rest)) counts).sum =
            (n.choose c : R) * ((e.2 : R) * x e.1) ^ c *
              ((e' :: rest).map fun e ↦ (e.2 : R) * x e.1).sum ^ (n - c) := by
        rw [← ih (List.cons_ne_nil e' rest) (n - c), ← List.sum_map_mul_left, List.map_map]
        congr 1
        apply List.map_congr_left
        intro counts hm
        exact term c counts (mem_all hm).2 (by rw [Finset.mem_range] at hc; omega)
      rw [List.length_cons, List.length_cons, all, List.map_flatMap, List.flatMap_def,
        List.sum_flatten, List.map_map, sum_map_range, List.map_cons, List.sum_cons, add_pow]
      apply Finset.sum_congr rfl
      intro c hc
      rw [Function.comp_apply, pools c hc]
      ring

/-- The weights of all pools expand the power of the weighted sum of the faces. -/
theorem sum_weight (x : K → R) {entries : List (K × Nat)} (h : entries ≠ []) (n : Nat) :
    ((all entries.length n).map fun counts ↦
        (weight n (Table.values entries) counts : R) *
          monomial x (Table.keys entries) counts).sum =
      (entries.map fun e ↦ (e.2 : R) * x e.1).sum ^ n := by
  rw [← sum_shares x entries h n]
  congr 1
  apply List.map_congr_left
  intro counts hm
  obtain ⟨hl, hs⟩ := mem_all hm
  rw [weight_eq_shares (by rw [Table.values, List.length_map, hl]) hs]

end Multinomial
end DicePool.Pools
