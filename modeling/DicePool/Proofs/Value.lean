import DicePool.Value
import Mathlib.Algebra.Order.BigOperators.Group.List
import Mathlib.Algebra.Order.Ring.Abs
import Mathlib.Algebra.Order.Ring.Rat
import Mathlib.Data.Rat.Lemmas
import Mathlib.Tactic.Linarith

/-!
# When arithmetic is exact

Whatever is computed has a numerator of 64 bits, and so it is left alone when zero is added. Values
that are whole numbers of the same parts weigh as many of them as their magnitudes together. Adding
up values adds up their weights, whatever their signs, so that nothing wraps around as long as 64
bits can count the weight: such values have the same exact sum in any order and grouping.
-/

namespace DicePool

namespace Value

/-- An integer wraps around to one of 64 bits. -/
theorem wrap_bounds (n : Int) : -2 ^ 63 ≤ wrap n ∧ wrap n < 2 ^ 63 := by
  unfold wrap
  rw [Int.bmod_def]
  omega

/-- An integer of 64 bits does not wrap around. -/
theorem wrap_of_bounds {n : Int} (least : -2 ^ 63 ≤ n) (most : n < 2 ^ 63) : wrap n = n := by
  unfold wrap
  rw [Int.bmod_def]
  omega

/-- A value with a numerator of 64 bits is its numerator over its denominator. -/
theorem wrapped_num_den {v : Value} (h : v.Narrow) : wrapped v.num v.den = v := by
  unfold wrapped
  rw [h]
  exact Rat.mkRat_self v

/-- A fraction is the quotient of what the numerator wraps around to. -/
theorem wrapped_eq_div (n : Int) (d : Nat) : wrapped n d = (wrap n : Value) / d := by
  rw [wrapped, Rat.mkRat_eq_div]

/-- Lowest terms are no wider than the fraction. -/
theorem narrow_wrapped (n : Int) {d : Nat} (pos : d ≠ 0) : (wrapped n d).Narrow := by
  cases h : wrapped n d with
  | mk' num den nonzero coprime =>
    obtain ⟨m, some, reduced, _⟩ := Rat.mkRat_num_den pos h
    obtain ⟨least, most⟩ := wrap_bounds n
    have one : (1 : Int) ≤ m := by omega
    show wrap num = num
    obtain negative | nonneg := lt_or_ge num 0
    · have le : num * m ≤ num := by nlinarith
      apply wrap_of_bounds <;> omega
    · have le : num ≤ num * m := by nlinarith
      apply wrap_of_bounds <;> omega

/-- Zero is narrow. -/
theorem narrow_zero : Narrow 0 := rfl

/-- A sum adds the numerators over the least common denominator. -/
theorem plus_eq_wrapped (a b : Value) : plus a b =
    wrapped (a.num * (Nat.lcm a.den b.den / a.den : Nat) +
      b.num * (Nat.lcm a.den b.den / b.den : Nat)) (Nat.lcm a.den b.den) := rfl

/-- Sums are narrow. -/
theorem narrow_plus (a b : Value) : (plus a b).Narrow :=
  narrow_wrapped _ (Nat.lcm_ne_zero a.den_nz b.den_nz)

/-- Differences are narrow. -/
theorem narrow_minus (a b : Value) : (minus a b).Narrow :=
  narrow_wrapped _ (Nat.lcm_ne_zero a.den_nz b.den_nz)

/-- Products are narrow. -/
theorem narrow_times (a b : Value) : (times a b).Narrow := narrow_wrapped _ (a * b).den_nz

/-- Quotients are narrow. -/
theorem narrow_dividedBy (a b : Value) : (dividedBy a b).Narrow := narrow_wrapped _ (a / b).den_nz

/-- Sums of lists are narrow. -/
theorem narrow_sum (values : List Value) : (sum values).Narrow := by
  refine List.foldlRecOn _ _ (motive := Narrow) narrow_zero ?_
  intro v _ w _
  exact narrow_plus v w

/-- A narrow product is exact. -/
theorem times_eq {a b : Value} (h : (a * b).Narrow) : times a b = a * b := wrapped_num_den h

/-- A narrow quotient is exact. -/
theorem dividedBy_eq {a b : Value} (h : (a / b).Narrow) : dividedBy a b = a / b := wrapped_num_den h

/-- A narrow value is left alone when it is added to zero. -/
theorem zero_plus {v : Value} (h : v.Narrow) : plus 0 v = v := by
  have lcm : Nat.lcm (0 : Value).den v.den = v.den := Nat.lcm_one_left v.den
  rw [plus_eq_wrapped, lcm]
  simp only [Rat.num_zero, Int.zero_mul, Int.zero_add, Nat.div_self v.den_pos, Nat.cast_one,
    Int.mul_one]
  exact wrapped_num_den h

/-- Values are added in either order. -/
theorem plus_comm (a b : Value) : plus a b = plus b a := by
  rw [plus_eq_wrapped, plus_eq_wrapped, Nat.lcm_comm, Int.add_comm]

/-- A narrow value is left alone when zero is added. -/
theorem plus_zero {v : Value} (h : v.Narrow) : plus v 0 = v := (plus_comm v 0).trans (zero_plus h)

/-- A difference adds the value with the sign turned. -/
theorem minus_eq_plus_neg (a b : Value) : minus a b = plus a (-b) := by
  rw [plus_eq_wrapped, Rat.den_neg_eq_den, Rat.num_neg_eq_neg_num, Int.neg_mul,
    ← Int.sub_eq_add_neg]
  rfl

/-- The sum of one narrow value. -/
theorem sum_singleton {v : Value} (h : v.Narrow) : sum [v] = v := zero_plus h

/-- A further value is added last. -/
theorem sum_concat (values : List Value) (v : Value) :
    sum (values ++ [v]) = plus (sum values) v := by
  rw [sum, List.foldl_append]
  rfl

/-- A numerator over a multiple of the denominator. -/
private theorem num_mul_div (a : Value) {d : Nat} (h : a.den ∣ d) :
    ((a.num * (d / a.den : Nat) : Int) : Value) = a * d := by
  obtain ⟨c, rfl⟩ := h
  rw [Nat.mul_div_cancel_left c a.den_pos]
  push_cast
  rw [← mul_assoc, Rat.mul_den_eq_num]

/-- A whole number of parts has a denominator that divides their number. -/
theorem den_dvd_of_mul_eq {v : Value} {d : Nat} {k : Int} (pos : 0 < d) (h : v * (d : Value) = k) :
    v.den ∣ d := by
  have parts : (d : Value) ≠ 0 := Nat.cast_ne_zero.mpr pos.ne'
  have quotient : v = Rat.divInt k d := by
    rw [Rat.divInt_eq_div, Int.cast_natCast, eq_div_iff parts, h]
  have divides : (v.den : Int) ∣ (d : Int) := quotient ▸ Rat.den_dvd k d
  exact Int.natCast_dvd_natCast.mp divides

/-- A sum is exact if 64 bits can count its parts. -/
theorem plus_eq {a b : Value} {d : Nat} {j k : Int} (pos : 0 < d) (ha : a * (d : Value) = j)
    (hb : b * (d : Value) = k) (small : (j + k).natAbs < 2 ^ 63) : plus a b = a + b := by
  have left : a.den ∣ Nat.lcm a.den b.den := Nat.dvd_lcm_left a.den b.den
  have right : b.den ∣ Nat.lcm a.den b.den := Nat.dvd_lcm_right a.den b.den
  have both : Nat.lcm a.den b.den ≠ 0 := Nat.lcm_ne_zero a.den_nz b.den_nz
  obtain ⟨c, hc⟩ := Nat.lcm_dvd (den_dvd_of_mul_eq pos ha) (den_dvd_of_mul_eq pos hb)
  rw [plus_eq_wrapped]
  generalize hn : a.num * (Nat.lcm a.den b.den / a.den : Nat) +
    b.num * (Nat.lcm a.den b.den / b.den : Nat) = n
  have numerator : (n : Value) = (a + b) * (Nat.lcm a.den b.den : Value) := by
    rw [← hn, Int.cast_add, num_mul_div a left, num_mul_div b right, add_mul]
  have parts : n * c = j + k := by
    have whole : ((n * c : Int) : Value) = ((j + k : Int) : Value) := by
      rw [Int.cast_add, ← ha, ← hb, ← add_mul, hc, Nat.cast_mul, ← mul_assoc, ← numerator,
        Int.cast_mul, Int.cast_natCast]
    exact_mod_cast whole
  have some : 1 ≤ c := by
    apply Nat.pos_of_ne_zero
    rintro rfl
    omega
  have fewer : n.natAbs ≤ (j + k).natAbs := by
    rw [← parts, Int.natAbs_mul, Int.natAbs_natCast]
    exact Nat.le_mul_of_pos_right _ some
  rw [wrapped_eq_div, wrap_of_bounds (by omega) (by omega), numerator]
  exact mul_div_cancel_right₀ _ (Nat.cast_ne_zero.mpr both)

end Value

/-- Whether a value fits: in lowest terms it has a denominator of at most a million, and a numerator
of less than 64 bits with its sign. -/
def Value.Fits (v : Value) : Prop := (1 ≤ v.den ∧ v.den ≤ 1000000) ∧ v.num.natAbs < 2 ^ 63

instance : DecidablePred Value.Fits := fun _ ↦ inferInstanceAs (Decidable (_ ∧ _))

/-- A value that fits is narrow. -/
theorem Value.Fits.narrow {v : Value} (h : v.Fits) : v.Narrow := by
  have bounded := h.2
  apply Value.wrap_of_bounds <;> omega

/-- The weight of a value: its magnitude in parts of which `d` make one. -/
def Value.weight (d : Nat) (v : Value) : Value := |v * (d : Value)|

/-- Whether values are whole numbers of the parts of which `d` make one, and weigh at most `n` of
them together. -/
structure Light (d n : Nat) (values : List Value) : Prop where
  whole : ∀ v ∈ values, ∃ k : Int, v * (d : Value) = k
  weight : (values.map (Value.weight d)).sum ≤ n

/-- Weights are compared by computing them. -/
instance (d n : Nat) (values : List Value) : Decidable (Light d n values) :=
  decidable_of_iff
    ((∀ v ∈ values, (v * (d : Value)).den = 1) ∧ (values.map (Value.weight d)).sum ≤ n)
    ⟨fun h ↦ ⟨fun v hv ↦ ⟨_, (Rat.coe_int_num_of_den_eq_one (h.1 v hv)).symm⟩, h.2⟩,
      fun h ↦ ⟨fun v hv ↦ by obtain ⟨k, hk⟩ := h.whole v hv; rw [hk, Rat.den_intCast], h.weight⟩⟩

/-- Whether values that weigh at most `n` fit: the parts are not too small, nor are there too many
of them. -/
structure Bearable (d n : Nat) : Prop where
  pos : 0 < d
  coarse : d ≤ 1000000
  light : n < 2 ^ 63

/-- Less can be borne than more. -/
theorem Bearable.mono {d m n : Nat} (h : Bearable d n) (le : m ≤ n) : Bearable d m :=
  ⟨h.pos, h.coarse, le.trans_lt h.light⟩

namespace Light

variable {d m n : Nat} {values values' : List Value} {a b : Value}

/-- Nothing weighs nothing. -/
theorem nil (d : Nat) : Light d 0 [] := ⟨nofun, Nat.cast_nonneg 0⟩

/-- A whole number of parts weighs its magnitude. -/
theorem of_mul_eq {v : Value} {k : Int} (h : v * (d : Value) = k) : Light d k.natAbs [v] where
  whole := List.forall_mem_singleton.mpr ⟨k, h⟩
  weight := by
    rw [List.map_singleton, List.sum_singleton, Value.weight, h, Nat.cast_natAbs, Int.cast_abs]

/-- An integer weighs its magnitude in parts. -/
theorem intCast (d : Nat) (k : Int) : Light d (k.natAbs * d) [(k : Value)] := by
  have weighs : Light d (k * d).natAbs [(k : Value)] := of_mul_eq (by push_cast; rfl)
  rwa [Int.natAbs_mul, Int.natAbs_natCast] at weighs

/-- Values weigh no more than a higher bound. -/
theorem mono (h : Light d m values) (le : m ≤ n) : Light d n values :=
  ⟨h.whole, h.weight.trans (Nat.cast_le.mpr le)⟩

/-- Rows of values weigh as much as both. -/
theorem append (h : Light d m values) (h' : Light d n values') :
    Light d (m + n) (values ++ values') where
  whole := List.forall_mem_append.mpr ⟨h.whole, h'.whole⟩
  weight := by
    rw [List.map_append, List.sum_append, Nat.cast_add]
    exact add_le_add h.weight h'.weight

/-- Some of the values weigh no more than all. -/
theorem subperm (h : Light d n values) (part : values'.Subperm values) : Light d n values' where
  whole v hv := h.whole v (part.subset hv)
  weight := by
    obtain ⟨kept, perm, sublist⟩ := part
    have less : (kept.map (Value.weight d)).sum ≤ (values.map (Value.weight d)).sum := by
      apply (sublist.map _).sum_le_sum
      intro w hw
      obtain ⟨v, _, rfl⟩ := List.mem_map.mp hw
      exact abs_nonneg _
    rw [← (perm.map (Value.weight d)).sum_eq]
    exact less.trans h.weight

/-- Each of the values weighs no more than all. -/
theorem of_mem (h : Light d n values) (ha : a ∈ values) : Light d n [a] :=
  h.subperm (List.singleton_subperm_iff.mpr ha)

/-- A zero weighs nothing. -/
theorem zero_cons (h : Light d n values) : Light d n (0 :: values) where
  whole := List.forall_mem_cons.mpr ⟨⟨0, by rw [zero_mul, Int.cast_zero]⟩, h.whole⟩
  weight := by
    rw [List.map_cons, List.sum_cons, Value.weight, zero_mul, abs_zero, zero_add]
    exact h.weight

/-- A value weighs as much with the sign turned. -/
theorem neg_cons (h : Light d n (a :: values)) : Light d n (-a :: values) where
  whole := by
    obtain ⟨⟨k, hk⟩, others⟩ := List.forall_mem_cons.mp h.whole
    exact List.forall_mem_cons.mpr ⟨⟨-k, by rw [neg_mul, hk, Int.cast_neg]⟩, others⟩
  weight := by
    have weight := h.weight
    rw [List.map_cons, List.sum_cons] at weight ⊢
    rwa [Value.weight, neg_mul, abs_neg]

/-- Values of which two are added weigh no more than before. -/
theorem merge (h : Light d n (a :: b :: values)) : Light d n ((a + b) :: values) where
  whole := by
    obtain ⟨⟨j, hj⟩, others⟩ := List.forall_mem_cons.mp h.whole
    obtain ⟨⟨k, hk⟩, others⟩ := List.forall_mem_cons.mp others
    exact List.forall_mem_cons.mpr ⟨⟨j + k, by rw [add_mul, hj, hk, Int.cast_add]⟩, others⟩
  weight := by
    have weight := h.weight
    have triangle : Value.weight d (a + b) ≤ Value.weight d a + Value.weight d b := by
      rw [Value.weight, add_mul]
      exact abs_add_le _ _
    rw [List.map_cons, List.sum_cons, List.map_cons, List.sum_cons] at weight
    rw [List.map_cons, List.sum_cons]
    linarith

/-- Values of which some are added to the first weigh no more than before. -/
theorem add_sum_append (h : Light d n (a :: (values ++ values'))) :
    Light d n ((a + values.sum) :: values') := by
  induction values generalizing a with
  | nil => rwa [List.sum_nil, add_zero]
  | cons b values ih =>
    rw [List.sum_cons, ← add_assoc]
    exact ih h.merge

/-- Values of which some are added up weigh no more than before. -/
theorem sum_append (h : Light d n (values ++ values')) : Light d n (values.sum :: values') := by
  have sum := h.zero_cons.add_sum_append
  rwa [zero_add] at sum

/-- The sum of values weighs no more than they do. -/
theorem sum (h : Light d n values) : Light d n [values.sum] := by
  rw [← List.append_nil values] at h
  exact h.sum_append

/-- Rows of values that weigh no more than so much each. -/
theorem flatMap {α : Type} {f : α → List Value} {w : Nat} {as : List α}
    (h : ∀ a ∈ as, Light d w (f a)) : Light d (as.length * w) (as.flatMap f) := by
  induction as with
  | nil => exact (nil d).mono (Nat.zero_le _)
  | cons a as ih =>
    obtain ⟨first, others⟩ := List.forall_mem_cons.mp h
    apply (first.append (ih others)).mono
    rw [List.length_cons, Nat.succ_mul, Nat.add_comm]

/-- Values that weigh no more than so much each. -/
theorem map {α : Type} {f : α → Value} {w : Nat} {as : List α}
    (h : ∀ a ∈ as, Light d w [f a]) : Light d (as.length * w) (as.map f) := by
  rw [List.map_eq_flatMap]
  exact flatMap h

/-- A value that weighs so much is a whole number of no more parts. -/
theorem exists_parts (h : Light d n [a]) : ∃ k : Int, a * (d : Value) = k ∧ k.natAbs ≤ n := by
  obtain ⟨k, hk⟩ := h.whole a (List.mem_singleton_self a)
  have weight := h.weight
  rw [List.map_singleton, List.sum_singleton, Value.weight, hk, ← Int.cast_abs, Int.abs_eq_natAbs,
    Int.cast_natCast] at weight
  exact ⟨k, hk, Nat.cast_le.mp weight⟩

/-- Values that are not too heavy, of parts that are not too small, fit. -/
theorem fits (h : Light d n values) (bearable : Bearable d n) : ∀ v ∈ values, Value.Fits v := by
  intro v hv
  obtain ⟨k, hk, few⟩ := (h.of_mem hv).exists_parts
  obtain ⟨c, hc⟩ := Value.den_dvd_of_mul_eq bearable.pos hk
  have some : 0 < c := Nat.pos_of_ne_zero (by rintro rfl; exact bearable.pos.ne' hc)
  have parts : v.num * c = k := by
    have whole : ((v.num * c : Int) : Value) = k := by
      rw [← hk, hc, Int.cast_mul, Int.cast_natCast, ← Rat.mul_den_eq_num, Nat.cast_mul, mul_assoc]
    exact_mod_cast whole
  have num : v.num.natAbs ≤ n := by
    refine le_trans ?_ few
    rw [← parts, Int.natAbs_mul, Int.natAbs_natCast]
    exact Nat.le_mul_of_pos_right _ some
  have den : v.den ≤ d := hc ▸ Nat.le_mul_of_pos_right v.den some
  exact ⟨⟨v.den_pos, den.trans bearable.coarse⟩, num.trans_lt bearable.light⟩

/-- A single value that is not too heavy fits. -/
theorem fits_single (h : Light d n [a]) (bearable : Bearable d n) : a.Fits :=
  h.fits bearable a (List.mem_singleton_self a)

/-- Values weigh as much in any order. -/
theorem perm (h : Light d n values) (perm : values.Perm values') : Light d n values' :=
  h.subperm perm.symm.subperm

section Exact

variable (pos : 0 < d) (small : n < 2 ^ 63)

include pos small

/-- Values that are not too heavy are added without wrapping around. -/
theorem plus_eq (h : Light d n (a :: b :: values)) : Value.plus a b = a + b := by
  have two : [a, b].Sublist (a :: b :: values) := .cons_cons a (.cons_cons b (List.nil_sublist _))
  have pair : Light d n [a, b] := h.subperm two.subperm
  obtain ⟨j, hj⟩ := pair.whole a List.mem_cons_self
  obtain ⟨k, hk⟩ := pair.whole b (List.mem_cons_of_mem a (List.mem_singleton_self b))
  obtain ⟨i, hi, few⟩ := pair.merge.exists_parts
  obtain rfl : i = j + k := by
    rw [add_mul, hj, hk] at hi
    exact_mod_cast hi.symm
  exact Value.plus_eq pos hj hk (few.trans_lt small)

/-- One of the values is taken off another without wrapping around, and the difference weighs no
more than they do. -/
theorem minus_eq (h : Light d n (a :: b :: values)) :
    Value.minus a b = a - b ∧ Light d n ((a - b) :: values) := by
  have turned : Light d n (a :: -b :: values) :=
    (h.perm (.swap b a values)).neg_cons.perm (.swap ..)
  rw [Value.minus_eq_plus_neg, turned.plus_eq pos small, ← sub_eq_add_neg]
  exact ⟨rfl, sub_eq_add_neg a b ▸ turned.merge⟩

/-- Values are added one by one to a first one without wrapping around. -/
theorem foldl_eq (h : Light d n (a :: values)) : values.foldl Value.plus a = a + values.sum := by
  induction values generalizing a with
  | nil => rw [List.foldl_nil, List.sum_nil, add_zero]
  | cons b values ih =>
    rw [List.foldl_cons, h.plus_eq pos small, ih h.merge, List.sum_cons, add_assoc]

/-- Values that are not too heavy have their exact sum. -/
theorem sum_eq (h : Light d n values) : Value.sum values = values.sum := by
  rw [Value.sum, h.zero_cons.foldl_eq pos small, zero_add]

/-- Values that are not too heavy have their exact sum with a further one. -/
theorem sum_plus_eq (h : Light d n (a :: values)) :
    Value.plus (Value.sum values) a = values.sum + a := by
  have last : Light d n (values ++ [a]) := h.perm (List.perm_append_singleton a values).symm
  have those : Light d n values := h.subperm (List.sublist_cons_self a values).subperm
  rw [those.sum_eq pos small, last.sum_append.plus_eq pos small]

end Exact

end Light

/-- Whether values can be added up in any order and grouping without wrapping around: 64 bits can
count the parts that they have, and into how many parts a one is divided. -/
def Addable (values : List Value) : Prop :=
  ∃ d n, Light d n values ∧ (0 < d ∧ d < 2 ^ 63) ∧ n < 2 ^ 63

/-- Values that weigh little can be added up. -/
theorem Light.addable {d n : Nat} {values : List Value} (h : Light d n values)
    (bearable : Bearable d n) : Addable values :=
  ⟨d, n, h, ⟨bearable.pos, bearable.coarse.trans_lt (by decide)⟩, bearable.light⟩

namespace Addable

variable {values values' : List Value} {a : Value}

/-- Some of the values can be added up if all can. -/
theorem subperm (h : Addable values) (part : values'.Subperm values) : Addable values' := by
  obtain ⟨d, n, light, bearable⟩ := h
  exact ⟨d, n, light.subperm part, bearable⟩

/-- The values after a first one can be added up if all can. -/
theorem tail (h : Addable (a :: values)) : Addable values :=
  h.subperm (List.sublist_cons_self a values).subperm

/-- Values that can be added up have their exact sum. -/
theorem sum_eq (h : Addable values) : Value.sum values = values.sum := by
  obtain ⟨d, n, light, ⟨pos, _⟩, small⟩ := h
  exact light.sum_eq pos small

/-- Values that can be added up have their exact sum with a further one. -/
theorem sum_plus_eq (h : Addable (a :: values)) :
    Value.plus (Value.sum values) a = values.sum + a := by
  obtain ⟨d, n, light, ⟨pos, _⟩, small⟩ := h
  exact light.sum_plus_eq pos small

end Addable

end DicePool
