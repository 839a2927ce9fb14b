import DicePool.Proofs.Modifiers.Pool

/-!
# The ranks that are left of a pool

Keeping and dropping sort a pool anew from the end that they name. Counted on the pool in ascending
order, each of them cuts ranks off one end of those that are left: what is left in the end is a
window of consecutive ranks, whatever the order in which the values came.
-/

namespace DicePool

/-- Consecutive ranks of a pool in ascending order: from the first one to the last one before the
stop. -/
structure Window where
  first : Nat
  stop : Nat
  first_le_stop : first ≤ stop

namespace Window

/-- All ranks of a pool of `n` values. -/
def full (n : Nat) : Window := ⟨0, n, Nat.zero_le n⟩

/-- The number of ranks. -/
def size (w : Window) : Nat := w.stop - w.first

/-- The ranks that are kept: as many as asked for or present, at the end that is named. -/
def keep (w : Window) (s : Selection) : Window :=
  match s.layer with
  | .high => ⟨w.stop - min s.count w.size, w.stop, Nat.sub_le _ _⟩
  | .low => ⟨w.first, w.first + min s.count w.size, Nat.le_add_right _ _⟩

/-- The ranks that are left when as many as asked for or present are dropped at the end that is
named. -/
def drop (w : Window) (s : Selection) : Window :=
  have fits : w.first + min s.count w.size ≤ w.stop := by
    have := w.first_le_stop
    unfold size
    omega
  match s.layer with
  | .high => ⟨w.first, w.stop - min s.count w.size, by omega⟩
  | .low => ⟨w.first + min s.count w.size, w.stop, fits⟩

/-- The values at the ranks of a window. -/
def values (w : Window) (ranked : List Value) : List Value := ranked.extract w.first w.stop

/-- All ranks are those of all values. -/
theorem values_full (ranked : List Value) : (full ranked.length).values ranked = ranked := by
  rw [values, full, List.extract_eq_take_drop, List.drop_zero, Nat.sub_zero, List.take_length]

variable {w : Window} {ranked pool : List Value}

/-- There are as many values as ranks if the window ends within the pool. -/
theorem length_values (within : w.stop ≤ ranked.length) : (w.values ranked).length = w.size := by
  rw [values, List.extract_eq_take_drop, List.length_take, List.length_drop, size]
  omega

/-- The values at consecutive ranks of a ranked pool are ranked. -/
theorem orders_values (ranks : Layer.low.Orders ranked) (w : Window) :
    Layer.low.Orders (w.values ranked) :=
  ranks.sublist ((List.take_sublist _ _).trans (List.drop_sublist _ _))

/-- Sorted from its upper end, a pool lists its window backwards. -/
theorem sorted_high (ranks : Layer.low.Orders ranked) (holds : pool.Perm (w.values ranked)) :
    Layer.high.sorted pool = (w.values ranked).reverse :=
  Layer.sorted_eq (List.pairwise_reverse.mpr (orders_values ranks w))
    (holds.trans (List.reverse_perm _).symm)

/-- Sorted from its lower end, a pool lists its window. -/
theorem sorted_low (ranks : Layer.low.Orders ranked) (holds : pool.Perm (w.values ranked)) :
    Layer.low.sorted pool = w.values ranked :=
  Layer.sorted_eq (orders_values ranks w) holds

/-- The first values of a window. -/
private theorem take_values (w : Window) (ranked : List Value) (k : Nat) :
    (w.values ranked).take k = ranked.extract w.first (w.first + min k w.size) := by
  rw [values, List.extract_eq_take_drop, List.extract_eq_take_drop, List.take_take,
    Nat.add_sub_cancel_left, size]

/-- The values of a window after the first ones. -/
private theorem drop_values (w : Window) (ranked : List Value) (k : Nat) :
    (w.values ranked).drop k = ranked.extract (w.first + min k w.size) w.stop := by
  rw [values, List.extract_eq_take_drop, List.extract_eq_take_drop, List.drop_take, List.drop_drop]
  rcases Nat.le_total k w.size with fewer | all
  · rw [Nat.min_eq_left fewer, Nat.sub_add_eq]
  · have none : w.stop - w.first - k = 0 := Nat.sub_eq_zero_of_le all
    have none' : w.stop - (w.first + w.size) = 0 := by
      unfold size
      omega
    rw [Nat.min_eq_right all, none, none', List.take_zero, List.take_zero]

/-- Keeping cuts the window. -/
theorem keep_perm (ranks : Layer.low.Orders ranked) (within : w.stop ≤ ranked.length)
    (holds : pool.Perm (w.values ranked)) (s : Selection) :
    (s.keep pool).Perm ((w.keep s).values ranked) := by
  obtain ⟨layer, count⟩ := s
  cases layer with
  | low =>
    rw [Selection.keep, sorted_low ranks holds, take_values]
    exact .refl _
  | high =>
    have first : w.first + min (w.size - count) w.size = w.stop - min count w.size := by
      have := w.first_le_stop
      unfold size
      omega
    rw [Selection.keep, sorted_high ranks holds, List.take_reverse, length_values within,
      drop_values, first]
    exact List.reverse_perm _

/-- Dropping cuts the window. -/
theorem drop_perm (ranks : Layer.low.Orders ranked) (within : w.stop ≤ ranked.length)
    (holds : pool.Perm (w.values ranked)) (s : Selection) :
    (s.drop pool).Perm ((w.drop s).values ranked) := by
  obtain ⟨layer, count⟩ := s
  cases layer with
  | low =>
    rw [Selection.drop, sorted_low ranks holds, drop_values]
    exact .refl _
  | high =>
    have stop : w.first + min (w.size - count) w.size = w.stop - min count w.size := by
      have := w.first_le_stop
      unfold size
      omega
    rw [Selection.drop, sorted_high ranks holds, List.drop_reverse, length_values within,
      take_values, stop]
    exact List.reverse_perm _

/-- What is kept ends where the window does, or before. -/
theorem stop_keep_le (w : Window) (s : Selection) : (w.keep s).stop ≤ w.stop := by
  have := w.first_le_stop
  unfold keep size
  split
  · exact Nat.le_refl _
  · show w.first + min s.count (w.stop - w.first) ≤ w.stop
    omega

end Window

namespace Modifiers

/-- The ranks that are left of a pool of `n` values after keeping and then dropping. -/
def window (m : Modifiers) (n : Nat) : Window :=
  let kept := m.keep?.elim (.full n) (Window.full n).keep
  m.drop?.elim kept kept.drop

/-- The number of values that are kept of `n` values. -/
def keptCount (m : Modifiers) (n : Nat) : Nat := m.keep?.elim n fun s ↦ min s.count n

/-- The number of values that are dropped of those that are kept of `n` values. -/
def droppedCount (m : Modifiers) (n : Nat) : Nat :=
  m.drop?.elim 0 fun s ↦ min s.count (m.keptCount n)

/-- The selection that is applied last. -/
def lastSelection? (m : Modifiers) : Option Selection := m.drop?.or m.keep?

/-- As many values are left as are kept and not dropped. -/
theorem length_filterPool (m : Modifiers) (values : List Value) :
    (m.filterPool values).length = m.keptCount values.length - m.droppedCount values.length := by
  have kept : (m.keep?.elim values fun s ↦ s.keep values).length = m.keptCount values.length := by
    unfold keptCount
    cases m.keep? with
    | none => rfl
    | some s => exact s.length_keep values
  unfold filterPool droppedCount
  cases m.drop? with
  | none => exact kept
  | some s =>
    rw [Option.elim_some, Option.elim_some, s.length_drop, kept]
    omega

/-- What is left of a pool stands at the ranks of its window. -/
theorem filterPool_perm_window (m : Modifiers) (values : List Value) :
    (m.filterPool values).Perm ((m.window values.length).values (ascending values)) := by
  have ranks : Layer.low.Orders (ascending values) := Layer.low.orders_sorted values
  have length : (ascending values).length = values.length :=
    (Layer.low.sorted_perm values).length_eq
  have whole : values.Perm ((Window.full values.length).values (ascending values)) := by
    rw [← length, Window.values_full]
    exact (Layer.low.sorted_perm values).symm
  have kept : (m.keep?.elim values fun s ↦ s.keep values).Perm
        ((m.keep?.elim (.full values.length) (Window.full values.length).keep).values
          (ascending values)) ∧
      (m.keep?.elim (.full values.length) (Window.full values.length).keep).stop ≤
        (ascending values).length := by
    cases m.keep? with
    | none => exact ⟨whole, Nat.le_of_eq length.symm⟩
    | some s =>
      exact ⟨Window.keep_perm ranks (Nat.le_of_eq length.symm) whole s,
        Nat.le_trans (Window.stop_keep_le _ s) (Nat.le_of_eq length.symm)⟩
  unfold filterPool window
  cases m.drop? with
  | none => exact kept.1
  | some s => exact Window.drop_perm ranks kept.2 kept.1 s

/-- What is left of a pool stands in the order of the selection that is applied last. -/
theorem orders_filterPool {m : Modifiers} {s : Selection} (last : m.lastSelection? = some s)
    (values : List Value) : s.layer.Orders (m.filterPool values) := by
  unfold lastSelection? at last
  unfold filterPool
  cases hd : m.drop? with
  | some d =>
    rw [hd, Option.some_or] at last
    cases last
    exact (s.layer.orders_sorted _).sublist (List.drop_sublist _ _)
  | none =>
    rw [hd, Option.none_or] at last
    rw [last]
    exact (s.layer.orders_sorted values).sublist (List.take_sublist _ _)

/-- Of a pool of `n` values, keeping and dropping leave as many as are kept and not dropped: those
at the ranks of a window of the pool in ascending order, sorted from the end that the last selection
names, and therefore the same for every order of the pool. -/
theorem filterPool_window (m : Modifiers) (values : List Value) :
    (m.filterPool values).length = m.keptCount values.length - m.droppedCount values.length ∧
    (m.filterPool values).Perm ((m.window values.length).values (ascending values)) ∧
    ∀ s, m.lastSelection? = some s → s.layer.Orders (m.filterPool values) ∧
      ∀ values' : List Value, values'.Perm values → m.filterPool values' = m.filterPool values := by
  refine ⟨m.length_filterPool values, m.filterPool_perm_window values, fun s last ↦ ?_⟩
  refine ⟨orders_filterPool last values, fun values' perm ↦ ?_⟩
  exact (orders_filterPool last values').eq_of_perm (orders_filterPool last values)
    (m.filterPool_perm perm)

private def highestThreeButOne : Modifiers :=
  { keep? := some ⟨.high, 3⟩, drop? := some ⟨.low, 1⟩ }

/-- Of five values the highest three are kept and the lowest of them is dropped: the fourth and the
fifth in ascending order are left, whatever the order in which they came. -/
theorem filterPool_window_highestThreeButOne :
    highestThreeButOne.window 5 = ⟨3, 5, by decide⟩ ∧
    (highestThreeButOne.filterPool [2, 6, 4, 1, 5]).length = 2 ∧
    highestThreeButOne.filterPool [2, 6, 4, 1, 5] = [5, 6] ∧
    highestThreeButOne.filterPool [6, 5, 4, 2, 1] = [5, 6] := by
  have ranked : ascending [2, 6, 4, 1, 5] = [1, 2, 4, 5, 6] :=
    Layer.sorted_eq (by decide +kernel : Layer.low.Orders _) (by decide)
  obtain ⟨length, window, last⟩ := filterPool_window highestThreeButOne [2, 6, 4, 1, 5]
  obtain ⟨ordered, same⟩ := last ⟨.low, 1⟩ rfl
  rw [ranked] at window
  have left := ordered.eq_of_perm (by decide +kernel : Layer.low.Orders [5, 6]) window
  exact ⟨rfl, length, left, (same _ (by decide)).trans left⟩

end Modifiers

end DicePool
