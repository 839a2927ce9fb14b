import DicePool.Modifiers.Pool
import Mathlib.Algebra.Order.Ring.Rat
import Mathlib.Data.List.Sort
import Mathlib.Data.Multiset.Basic

/-!
# Pools without an order

Keeping and dropping sort the pool first, so what is left does not depend on the order in which the
dice were rolled. A change that keeps the values in order can be made before or after.
-/

namespace DicePool

namespace Layer

/-- Whether values stand in the order in which a layer sorts them. -/
def Orders (layer : Layer) (values : List Value) : Prop :=
  match layer with
  | high => values.Pairwise (· ≥ ·)
  | low => values.Pairwise (· ≤ ·)

instance (layer : Layer) : DecidablePred layer.Orders :=
  match layer with
  | high => fun values ↦ inferInstanceAs (Decidable (values.Pairwise (· ≥ ·)))
  | low => fun values ↦ inferInstanceAs (Decidable (values.Pairwise (· ≤ ·)))

/-- A part of ordered values is ordered. -/
theorem Orders.sublist {layer : Layer} {values values' : List Value} (h : layer.Orders values)
    (part : values'.Sublist values) : layer.Orders values' := by
  cases layer <;> exact List.Pairwise.sublist part h

/-- The same values stand in one order only. -/
theorem Orders.eq_of_perm {layer : Layer} {values values' : List Value} (h : layer.Orders values)
    (h' : layer.Orders values') (perm : values.Perm values') : values = values' := by
  cases layer with
  | high => exact perm.eq_of_pairwise' (r := (· ≥ ·)) h h'
  | low => exact perm.eq_of_pairwise' (r := (· ≤ ·)) h h'

/-- Sorted values are ordered. -/
theorem orders_sorted (layer : Layer) (values : List Value) :
    layer.Orders (layer.sorted values) := by
  cases layer with
  | high => exact List.pairwise_mergeSort' (· ≥ ·) values
  | low => exact List.pairwise_mergeSort' (· ≤ ·) values

/-- Values are sorted into the one order in which they can stand. -/
theorem sorted_eq {layer : Layer} {values ranked : List Value} (ordered : layer.Orders ranked)
    (perm : values.Perm ranked) : layer.sorted values = ranked :=
  (layer.orders_sorted values).eq_of_perm ordered ((layer.sorted_perm values).trans perm)

/-- A monotone change keeps values in order. -/
theorem Orders.map {layer : Layer} {values : List Value} {f : Value → Value} (hf : Monotone f)
    (h : layer.Orders values) : layer.Orders (values.map f) := by
  cases layer <;> exact List.pairwise_map.mpr (List.Pairwise.imp (fun hab ↦ hf hab) h)

/-- A monotone change can be made before or after sorting. -/
theorem sorted_map {f : Value → Value} (hf : Monotone f) (layer : Layer) (values : List Value) :
    layer.sorted (values.map f) = (layer.sorted values).map f :=
  sorted_eq ((layer.orders_sorted values).map hf) ((layer.sorted_perm values).symm.map f)

/-- Sorting from either end forgets the order. -/
theorem sorted_congr (layer : Layer) {values values' : List Value}
    (h : values.Perm values') : layer.sorted values = layer.sorted values' :=
  sorted_eq (layer.orders_sorted values') (h.trans (layer.sorted_perm values').symm)

end Layer

/-- Pools of the same values keep the same values. -/
theorem Modifiers.filterPool_perm (m : Modifiers) {values values' : List Value}
    (h : values.Perm values') : (m.filterPool values).Perm (m.filterPool values') := by
  have kept : (m.keep?.elim values fun s ↦ s.keep values).Perm
      (m.keep?.elim values' fun s ↦ s.keep values') := by
    cases m.keep? with
    | none => exact h
    | some s =>
      rw [Option.elim_some, Option.elim_some, Selection.keep, Selection.keep,
        s.layer.sorted_congr h]
  unfold filterPool
  cases m.drop? with
  | none => exact kept
  | some s =>
    rw [Option.elim_some, Option.elim_some, Selection.drop, Selection.drop,
      s.layer.sorted_congr kept]

/-- Keeping or dropping leaves the same values in the same order. -/
theorem Modifiers.filterPool_congr {m : Modifiers} (hs : m.selects = true)
    {values values' : List Value} (h : values.Perm values') :
    m.filterPool values = m.filterPool values' := by
  unfold filterPool
  cases hk : m.keep? with
  | some s =>
    rw [Option.elim_some, Option.elim_some, Selection.keep, Selection.keep, s.layer.sorted_congr h]
  | none =>
    cases hd : m.drop? with
    | none => simp [selects, hk, hd] at hs
    | some s =>
      simp only [Option.elim_none, Option.elim_some, Selection.drop, s.layer.sorted_congr h]

/-- A monotone change can be made before or after keeping and dropping. -/
theorem Modifiers.filterPool_map (m : Modifiers) {f : Value → Value} (hf : Monotone f)
    (values : List Value) : m.filterPool (values.map f) = (m.filterPool values).map f := by
  have kept : (m.keep?.elim (values.map f) fun s ↦ s.keep (values.map f)) =
      (m.keep?.elim values fun s ↦ s.keep values).map f := by
    cases m.keep? with
    | none => rfl
    | some s =>
      rw [Option.elim_some, Option.elim_some, Selection.keep, Selection.keep,
        s.layer.sorted_map hf, List.map_take]
  unfold filterPool
  rw [kept]
  cases m.drop? with
  | none => rfl
  | some s =>
    rw [Option.elim_some, Option.elim_some, Selection.drop, Selection.drop,
      s.layer.sorted_map hf, List.map_drop]

/-- What is left of a pool is part of it. -/
theorem Modifiers.filterPool_subperm (m : Modifiers) (values : List Value) :
    (m.filterPool values).Subperm values := by
  have kept : (m.keep?.elim values fun s ↦ s.keep values).Subperm values := by
    cases m.keep? with
    | none => exact List.Subperm.refl values
    | some s => exact (List.take_sublist _ _).subperm.trans (s.layer.sorted_perm values).subperm
  unfold filterPool
  cases m.drop? with
  | none => exact kept
  | some s =>
    exact ((List.drop_sublist _ _).subperm.trans (s.layer.sorted_perm _).subperm).trans kept

end DicePool
