import DicePool.Modifiers

/-!
# Keeping and dropping dice

A pool is sorted from the end that a modifier names. Keeping takes that many values from there,
dropping leaves them out; a pool is first kept from and then dropped from.
-/

namespace DicePool

/-- The values in ascending order. -/
def ascending (values : List Value) : List Value := values.mergeSort fun a b ↦ a ≤ b

/-- The values in descending order. -/
def descending (values : List Value) : List Value := values.mergeSort fun a b ↦ b ≤ a

namespace Layer

/-- The values sorted from one end. -/
def sorted (layer : Layer) (values : List Value) : List Value :=
  match layer with
  | high => descending values
  | low => ascending values

/-- Sorting only reorders. -/
theorem sorted_perm (layer : Layer) (values : List Value) : (layer.sorted values).Perm values := by
  cases layer <;> exact List.mergeSort_perm ..

end Layer

namespace Selection

/-- The values of the selection. -/
def keep (s : Selection) (values : List Value) : List Value :=
  (s.layer.sorted values).take s.count

/-- The values outside the selection. -/
def drop (s : Selection) (values : List Value) : List Value :=
  (s.layer.sorted values).drop s.count

/-- No more is kept than asked for or present. -/
theorem length_keep (s : Selection) (values : List Value) :
    (s.keep values).length = min s.count values.length := by
  rw [keep, List.length_take, (s.layer.sorted_perm values).length_eq]

/-- No more is dropped than asked for or present. -/
theorem length_drop (s : Selection) (values : List Value) :
    (s.drop values).length = values.length - s.count := by
  rw [drop, List.length_drop, (s.layer.sorted_perm values).length_eq]

end Selection

/-- The values left of a pool after keeping and then dropping (`filter_pool`). -/
def Modifiers.filterPool (m : Modifiers) (values : List Value) : List Value :=
  let kept := m.keep?.elim values fun s ↦ s.keep values
  m.drop?.elim kept fun s ↦ s.drop kept

/-- A pool without keep and drop stays as it is. -/
theorem Modifiers.filterPool_of_not_selects {m : Modifiers} (h : m.selects = false)
    (values : List Value) : m.filterPool values = values := by
  simp only [selects, Bool.or_eq_false_iff, Option.isSome_eq_false_iff,
    Option.isNone_iff_eq_none] at h
  simp [filterPool, h.1, h.2]

end DicePool
