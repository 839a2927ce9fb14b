import DicePool.Proofs.Roll.Positions
import DicePool.Proofs.Value
import Mathlib.Data.List.Flatten

/-!
# Positions in exact arithmetic

A position adds up its boosted values, of which each after the first may lose one. If these values,
with one for each of them, are light, then nothing wraps around on the way, and what the position
comes to is a closed form that is as light.
-/

namespace DicePool

open List (perm_middle)

/-- What is added up of boosted values: themselves, and one for each, which it may lose. -/
def Value.addends (bs : List Value) : List Value := bs.flatMap fun b ↦ [b, 1]

/-- What compounding dice come to in exact arithmetic: their sum, less one for each after the first
if they penetrate. -/
def Explosion.summed (e : Explosion) (bs : List Value) : Value :=
  bs.sum - if e.penetrate then ((bs.length - 1 : Nat) : Value) else 0

/-- The chain of a position in exact arithmetic. -/
def Explosion.closed (e : Explosion) (boost : Boost) (vs : List Value) : Chain :=
  let bs := vs.map boost.apply
  match e.compound, e.penetrate with
  | false, false => ⟨vs, bs⟩
  | false, true => ⟨vs, bs.take 1 ++ (bs.drop 1).map (· - 1)⟩
  | true, _ => ⟨vs.take 1, [e.summed bs]⟩

/-- A further die adds its value to the others, less one if they penetrate. -/
theorem Explosion.summed_cons (e : Explosion) (b b' : Value) (bs : List Value) :
    e.summed (b :: b' :: bs) =
      b + if e.penetrate then e.summed (b' :: bs) - 1 else e.summed (b' :: bs) := by
  unfold summed
  cases e.penetrate with
  | false => simp only [List.sum_cons, Bool.false_eq_true, if_false, sub_zero]
  | true =>
    simp only [List.sum_cons, List.length_cons, Nat.add_sub_cancel, if_true]
    push_cast
    ring

/-- The values of a position add up to the same when they are summed into the first, even if all
but the first lose one. -/
theorem Explosion.sum_closed (condition : Condition) (penetrate : Bool) (boost : Boost)
    (vs : List Value) :
    ((Explosion.mk condition true penetrate).closed boost vs).modified.sum =
      ((Explosion.mk condition false penetrate).closed boost vs).modified.sum := by
  have lose (bs : List Value) : (bs.map (· - 1)).sum = bs.sum - bs.length := by
    simp only [sub_eq_add_neg, List.sum_map_add, List.map_id', List.map_const', List.sum_replicate,
      nsmul_eq_mul, mul_neg, mul_one]
  cases penetrate with
  | false =>
    show [(vs.map boost.apply).sum - 0].sum = (vs.map boost.apply).sum
    rw [List.sum_singleton, sub_zero]
  | true =>
    show [(vs.map boost.apply).sum - ((vs.map boost.apply).length - 1 : Nat)].sum =
      ((vs.map boost.apply).take 1 ++ ((vs.map boost.apply).drop 1).map (· - 1)).sum
    rw [List.sum_append, lose, List.sum_singleton, List.length_drop, ← add_sub_assoc,
      List.sum_take_add_sum_drop]

variable {d n w : Nat} {b : Value} {bs rest : List Value}

namespace Light

/-- What is added up of a first value is moved behind the rest. -/
private theorem addends_cons (h : Light d n (Value.addends (b :: bs) ++ rest)) :
    Light d n (Value.addends bs ++ b :: 1 :: rest) := by
  refine h.perm (.symm ?_)
  exact perm_middle.trans (.cons b perm_middle)

/-- A first value is moved to the front again, without the one that it does not lose. -/
private theorem cons_of_addends (h : Light d n (bs ++ b :: 1 :: rest)) :
    Light d n (b :: bs ++ rest) := by
  have moved := h.perm (perm_middle.trans (.cons b perm_middle))
  exact moved.subperm ((List.sublist_cons_self 1 (bs ++ rest)).cons_cons b).subperm

/-- Values that may lose one each weigh no more without it. -/
theorem of_addends (h : Light d n (Value.addends bs ++ rest)) : Light d n (bs ++ rest) := by
  induction bs generalizing rest with
  | nil => exact h
  | cons b bs ih => exact (ih h.addends_cons).cons_of_addends

/-- What is added up of values that weigh no more than so much each. -/
theorem addends (h : ∀ b ∈ bs, Light d w [b]) :
    Light d (bs.length * (w + d)) (Value.addends bs) := by
  have one : Light d d [1] := by simpa using intCast d 1
  exact flatMap fun b hb ↦ (h b hb).append one

section Exact

variable (pos : 0 < d) (small : n < 2 ^ 63)

include pos small

/-- Values that may lose one each lose it without wrapping around. -/
theorem map_minus_eq (h : Light d n (Value.addends bs ++ rest)) :
    bs.map (Value.minus · 1) = bs.map (· - 1) ∧ Light d n (bs.map (· - 1) ++ rest) := by
  induction bs generalizing rest with
  | nil => exact ⟨rfl, h⟩
  | cons b bs ih =>
    obtain ⟨others, light⟩ := ih h.addends_cons
    have first := light.perm (perm_middle.trans (.cons b perm_middle))
    obtain ⟨exact, less⟩ := first.minus_eq pos small
    exact ⟨List.cons_eq_cons.mpr ⟨exact, others⟩, less⟩

/-- A value is added to a single one without wrapping around. -/
private theorem plus_sum_eq {x : Value} (h : Light d n (x :: b :: rest)) :
    Value.plus b (Value.sum [x]) = b + x ∧ Light d n ((b + x) :: rest) := by
  have pair : Light d n (b :: x :: rest) := h.perm (.swap b x rest)
  rw [(h.of_mem List.mem_cons_self).sum_eq pos small, List.sum_singleton]
  exact ⟨pair.plus_eq pos small, pair.merge⟩

/-- Values that may lose one each are compounded without wrapping around. -/
theorem compounded_eq (e : Explosion) (h : Light d n (Value.addends bs ++ rest)) :
    e.compounded bs = e.summed bs ∧ Light d n (e.summed bs :: rest) := by
  induction bs generalizing rest with
  | nil =>
    have none : e.summed [] = 0 := by cases hp : e.penetrate <;> simp [Explosion.summed, hp]
    rw [none]
    exact ⟨rfl, h.zero_cons⟩
  | cons b bs ih =>
    cases bs with
    | nil =>
      have single : e.summed [b] = b := by cases hp : e.penetrate <;> simp [Explosion.summed, hp]
      rw [single]
      exact ⟨rfl, h.of_addends⟩
    | cons b' bs =>
      obtain ⟨others, light⟩ := ih h.addends_cons
      rw [Explosion.compounded, others, e.summed_cons]
      cases e.penetrate with
      | false =>
        have fewer := ((List.sublist_cons_self 1 rest).cons_cons b).cons_cons (e.summed (b' :: bs))
        exact (light.subperm fewer.subperm).plus_sum_eq pos small
      | true =>
        obtain ⟨exact, less⟩ := (light.perm (.cons _ (.swap 1 b rest))).minus_eq pos small
        simp only [if_true, exact]
        exact less.plus_sum_eq pos small

/-- A position whose boosted values may lose one each is its closed form. -/
theorem position_eq (e : Explosion) (boost : Boost) {vs : List Value}
    (h : Light d n (Value.addends (vs.map boost.apply) ++ rest)) :
    e.position boost vs = e.closed boost vs ∧ Light d n ((e.closed boost vs).modified ++ rest) := by
  obtain ⟨condition, compound, penetrate⟩ := e
  cases compound with
  | true =>
    obtain ⟨exact, light⟩ := h.compounded_eq pos small ⟨condition, true, penetrate⟩
    exact ⟨congrArg (fun v ↦ Chain.mk (vs.take 1) [v]) exact, light⟩
  | false =>
    cases penetrate with
    | false => exact ⟨rfl, h.of_addends⟩
    | true =>
      cases vs with
      | nil => exact ⟨rfl, h⟩
      | cons v vs =>
        obtain ⟨others, light⟩ := h.addends_cons.map_minus_eq pos small
        refine ⟨congrArg (fun bs ↦ Chain.mk (v :: vs) (boost.apply v :: bs)) others, ?_⟩
        exact light.cons_of_addends

/-- A position of a roll whose boosted values may lose one each weighs no more than these. -/
theorem position (spec : Spec) {vs : List Value}
    (h : Light d n (Value.addends (vs.map spec.modifiers.boost.apply) ++ rest)) :
    Light d n ((spec.position vs).modified ++ rest) := by
  unfold Spec.position
  cases spec.modifiers.explode? with
  | none => exact h.of_addends
  | some e =>
    obtain ⟨exact, light⟩ := h.position_eq pos small e spec.modifiers.boost
    rw [← exact] at light
    exact light

/-- The positions of a roll whose boosted values may lose one each weigh no more than these. -/
theorem positions (spec : Spec) {rows : List (List Value)}
    (h : Light d n (Value.addends (rows.flatten.map spec.modifiers.boost.apply) ++ rest)) :
    Light d n ((spec.positions rows).modified ++ rest) := by
  induction rows generalizing rest with
  | nil => exact h
  | cons vs rows ih =>
    rw [List.flatten_cons, List.map_append, Value.addends, List.flatMap_append,
      List.append_assoc] at h
    have first := h.position pos small spec
    have both := ih (first.perm (List.perm_append_comm_assoc _ _ rest))
    have ordered := both.perm (List.perm_append_comm_assoc _ _ rest)
    rwa [← List.append_assoc] at ordered

end Exact

end Light

/-- A position that can be added up, with one for each of its dice, is its closed form. -/
theorem Explosion.position_eq_closed (e : Explosion) {boost : Boost} {vs : List Value}
    (h : Addable (Value.addends (vs.map boost.apply))) :
    e.position boost vs = e.closed boost vs := by
  obtain ⟨d, n, light, ⟨pos, _⟩, small⟩ := h
  rw [← List.append_nil (Value.addends _)] at light
  exact (light.position_eq pos small e boost).1

/-- What is added up on the way from the dice of a roll to its total. -/
def Spec.addends (spec : Spec) (rows : List (List Value)) : List Value :=
  Value.addends (rows.flatten.map spec.modifiers.boost.apply) ++
    [(spec.modifiers.adjustment : Value)]

namespace Addable

variable {spec : Spec} {rows : List (List Value)}

/-- A position of a roll that can be added up can be. -/
theorem of_mem_rows (h : Addable (spec.addends rows)) {vs : List Value} (hvs : vs ∈ rows) :
    Addable (Value.addends (vs.map spec.modifiers.boost.apply)) := by
  have part := ((List.sublist_flatten_of_mem hvs).map spec.modifiers.boost.apply).flatMap
    fun b ↦ [b, 1]
  exact h.subperm (part.trans (List.sublist_append_left _ _)).subperm

/-- The values that count can be added up with the adjustment if the roll can. -/
theorem positions (h : Addable (spec.addends rows)) :
    Addable ((spec.modifiers.adjustment : Value) :: (spec.positions rows).modified) := by
  obtain ⟨d, n, light, ⟨pos, fine⟩, small⟩ := h
  exact ⟨d, n, (light.positions pos small spec).perm (List.perm_append_singleton _ _),
    ⟨pos, fine⟩, small⟩

end Addable

end DicePool
