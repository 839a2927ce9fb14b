import DicePool.Table
import Mathlib.Algebra.BigOperators.Group.List.Basic
import Mathlib.Data.List.Sort

/-!
# Sums over tables

Putting an entry in its place or merging two tables adds up, for every quantity of an entry that
is additive in its value. Since an order without ties tells equal keys, nothing is lost or counted
twice when entries are combined.
-/

namespace DicePool.Table

variable {K V M : Type} [LT K] [DecidableLT K]

section Sum

variable [Std.Trichotomous (α := K) (· < ·)] [AddCommMonoid M]

/-- An inserted entry adds its own quantity. -/
theorem sum_upsert {combine : V → V → V} {f : K → V → M}
    (hf : ∀ k v w, f k (combine v w) = f k v + f k w) (k : K) (v : V) (t : Table K V) :
    ((upsert combine k v t).map fun e ↦ f e.1 e.2).sum =
      f k v + (t.map fun e ↦ f e.1 e.2).sum := by
  induction t with
  | nil => rfl
  | cons e rest ih =>
    obtain ⟨a, w⟩ := e
    unfold upsert
    split
    · rfl
    · next hka =>
      split
      · rw [List.map_cons, List.sum_cons, ih, List.map_cons, List.sum_cons, add_left_comm]
      · next hak =>
        have he : a = k := Std.Trichotomous.trichotomous a k hak hka
        rw [List.map_cons, List.sum_cons, hf, List.map_cons, List.sum_cons, he, add_left_comm,
          add_assoc]

/-- Merged tables add up. -/
theorem sum_merge {combine : V → V → V} {f : K → V → M}
    (hf : ∀ k v w, f k (combine v w) = f k v + f k w) (s t : Table K V) :
    ((merge combine s t).map fun e ↦ f e.1 e.2).sum =
      (s.map fun e ↦ f e.1 e.2).sum + (t.map fun e ↦ f e.1 e.2).sum := by
  fun_induction merge combine s t with
  | case1 ys => simp
  | case2 x xs => simp
  | case3 a v xs b w ys hab ih =>
    rw [List.map_cons, List.sum_cons, ih, ← add_assoc]
    rfl
  | case4 a v xs b w ys hab hba ih =>
    rw [List.map_cons, List.sum_cons, ih, add_left_comm]
    rfl
  | case5 a v xs b w ys hab hba ih =>
    have he : a = b := Std.Trichotomous.trichotomous a b hab hba
    simp only [List.map_cons, List.sum_cons, ih, hf, he]
    rw [add_add_add_comm]

end Sum

/-- The keys after an insertion are the new one and the old ones. -/
theorem mem_keys_upsert_iff [Std.Trichotomous (α := K) (· < ·)] {combine : V → V → V} {k x : K}
    {v : V} {t : Table K V} : x ∈ (upsert combine k v t).keys ↔ x = k ∨ x ∈ t.keys := by
  constructor
  · exact mem_keys_upsert
  · induction t with
    | nil => simp [upsert, keys]
    | cons e rest ih =>
      obtain ⟨a, w⟩ := e
      unfold upsert
      split
      · simp [keys]
      · next hka =>
        split
        · simp only [keys, List.map_cons, List.mem_cons] at ih ⊢
          rintro (h | h | h)
          · exact Or.inr (ih (Or.inl h))
          · exact Or.inl h
          · exact Or.inr (ih (Or.inr h))
        · next hak =>
          have he : a = k := Std.Trichotomous.trichotomous a k hak hka
          simp [keys, he]

omit [DecidableLT K] in
/-- A key before the first of an ascending table is before all of them. -/
theorem Ascending.lt_of_lt_head [IsTrans K (· < ·)] {a b x : K} {w : V} {t : Table K V}
    (h : Ascending ((b, w) :: t)) (hab : a < b) (hx : x ∈ keys ((b, w) :: t)) : a < x := by
  rcases List.mem_cons.mp hx with rfl | hx
  · exact hab
  · exact trans_of (· < ·) hab ((List.pairwise_cons.mp h).1 x hx)

/-- An entry is put where the keys ascend. -/
theorem ascending_upsert [IsTrans K (· < ·)] (combine : V → V → V) (k : K) (v : V)
    {t : Table K V} (h : t.Ascending) : (upsert combine k v t).Ascending := by
  induction t with
  | nil => exact List.pairwise_singleton _ k
  | cons e rest ih =>
    obtain ⟨a, w⟩ := e
    obtain ⟨first, others⟩ := List.pairwise_cons.mp h
    unfold upsert
    split
    · next hka =>
      apply List.pairwise_cons.mpr
      exact ⟨fun x hx ↦ h.lt_of_lt_head hka hx, h⟩
    · split
      · next hak =>
        apply List.pairwise_cons.mpr
        refine ⟨fun x hx ↦ ?_, ih others⟩
        rcases mem_keys_upsert hx with rfl | hx
        · exact hak
        · exact first x hx
      · exact h

/-- The keys after merging are those of both tables. -/
theorem mem_keys_merge {combine : V → V → V} {s t : Table K V} {x : K}
    (h : x ∈ (merge combine s t).keys) : x ∈ s.keys ∨ x ∈ t.keys := by
  fun_induction merge combine s t with
  | case1 ys => exact Or.inr h
  | case2 x xs => exact Or.inl h
  | case3 a v xs b w ys hab ih =>
    simp only [keys, List.map_cons, List.mem_cons] at h ih ⊢
    rcases h with h | h
    · exact Or.inl (Or.inl h)
    · exact (ih h).imp Or.inr id
  | case4 a v xs b w ys hab hba ih =>
    simp only [keys, List.map_cons, List.mem_cons] at h ih ⊢
    rcases h with h | h
    · exact Or.inr (Or.inl h)
    · exact (ih h).imp id Or.inr
  | case5 a v xs b w ys hab hba ih =>
    simp only [keys, List.map_cons, List.mem_cons] at h ih ⊢
    rcases h with h | h
    · exact Or.inl (Or.inl h)
    · exact (ih h).imp Or.inr Or.inr

/-- Merged tables ascend. -/
theorem ascending_merge [Std.Trichotomous (α := K) (· < ·)] [IsTrans K (· < ·)]
    (combine : V → V → V) {s t : Table K V} (hs : s.Ascending) (ht : t.Ascending) :
    (merge combine s t).Ascending := by
  fun_induction merge combine s t with
  | case1 ys => exact ht
  | case2 x xs => exact hs
  | case3 a v xs b w ys hab ih =>
    obtain ⟨first, others⟩ := List.pairwise_cons.mp hs
    apply List.pairwise_cons.mpr
    refine ⟨fun x hx ↦ ?_, ih others ht⟩
    rcases mem_keys_merge hx with hx | hx
    · exact first x hx
    · exact ht.lt_of_lt_head hab hx
  | case4 a v xs b w ys hab hba ih =>
    obtain ⟨first, others⟩ := List.pairwise_cons.mp ht
    apply List.pairwise_cons.mpr
    refine ⟨fun x hx ↦ ?_, ih hs others⟩
    rcases mem_keys_merge hx with hx | hx
    · exact hs.lt_of_lt_head hba hx
    · exact first x hx
  | case5 a v xs b w ys hab hba ih =>
    have he : a = b := Std.Trichotomous.trichotomous a b hab hba
    obtain ⟨first, others⟩ := List.pairwise_cons.mp hs
    obtain ⟨first', others'⟩ := List.pairwise_cons.mp ht
    apply List.pairwise_cons.mpr
    refine ⟨fun x hx ↦ ?_, ih others others'⟩
    rcases mem_keys_merge hx with hx | hx
    · exact first x hx
    · exact he ▸ first' x hx

section MapValues

variable {W : Type}

/-- The table with every value changed. -/
def mapValues (g : V → W) (t : Table K V) : Table K W := t.map fun e ↦ (e.1, g e.2)

variable {g : V → W}

omit [LT K] [DecidableLT K] in
/-- Changed values leave the keys. -/
theorem keys_mapValues (g : V → W) (t : Table K V) : keys (mapValues g t) = keys t := by
  rw [keys, mapValues, List.map_map]
  rfl

omit [LT K] [DecidableLT K] in
/-- The values of a set of keys are changed. -/
theorem valuesWhere_mapValues (g : V → W) (t : Table K V) (p : K → Bool) :
    valuesWhere (mapValues g t) p = (valuesWhere t p).map g := by
  rw [valuesWhere, mapValues, List.filter_map, values, List.map_map, valuesWhere, values,
    List.map_map]
  rfl

variable {combine : V → V → V} {combine' : W → W → W}
  (hg : ∀ v w, g (combine v w) = combine' (g v) (g w))

include hg

/-- Values can be changed before or after an insertion if the change respects combining. -/
theorem upsert_mapValues (k : K) (v : V) (t : Table K V) :
    upsert combine' k (g v) (mapValues g t) = mapValues g (upsert combine k v t) := by
  induction t with
  | nil => rfl
  | cons e rest ih =>
    obtain ⟨a, w⟩ := e
    show upsert combine' k (g v) ((a, g w) :: mapValues g rest) = _
    unfold upsert
    split
    · rfl
    · split
      · exact congrArg ((a, g w) :: ·) ih
      · exact congrArg (fun x ↦ (a, x) :: mapValues g rest) (hg w v).symm

/-- Values can be changed before or after merging if the change respects combining. -/
theorem merge_mapValues (s t : Table K V) :
    merge combine' (mapValues g s) (mapValues g t) = mapValues g (merge combine s t) := by
  fun_induction merge combine s t with
  | case1 ys => simp [mapValues, merge]
  | case2 x xs => simp [mapValues, merge]
  | case3 a v xs b w ys hab ih =>
    have first : merge combine' (mapValues g ((a, v) :: xs)) (mapValues g ((b, w) :: ys)) =
        (a, g v) :: merge combine' (mapValues g xs) (mapValues g ((b, w) :: ys)) := by
      simp only [mapValues, List.map_cons, merge, if_pos hab]
    rw [first, ih]
    rfl
  | case4 a v xs b w ys hab hba ih =>
    have first : merge combine' (mapValues g ((a, v) :: xs)) (mapValues g ((b, w) :: ys)) =
        (b, g w) :: merge combine' (mapValues g ((a, v) :: xs)) (mapValues g ys) := by
      simp only [mapValues, List.map_cons, merge, if_neg hab, if_pos hba]
    rw [first, ih]
    rfl
  | case5 a v xs b w ys hab hba ih =>
    have first : merge combine' (mapValues g ((a, v) :: xs)) (mapValues g ((b, w) :: ys)) =
        (a, combine' (g v) (g w)) :: merge combine' (mapValues g xs) (mapValues g ys) := by
      simp only [mapValues, List.map_cons, merge, if_neg hab, if_neg hba]
    rw [first, ih, ← hg]
    rfl

end MapValues

section Ascending

omit [DecidableLT K]

variable [Std.Irrefl (α := K) (· < ·)] {s t : Table K V}

/-- Tables in ascending order are told apart by their entries. -/
theorem Ascending.eq_of_mem_iff [IsTrans K (· < ·)] (hs : s.Ascending) (ht : t.Ascending)
    (h : ∀ e, e ∈ s ↔ e ∈ t) : s = t := by
  let before (e e' : K × V) : Prop := e.1 < e'.1
  have : Std.Irrefl before := ⟨fun e ↦ irrefl_of (· < ·) e.1⟩
  have : Std.Antisymm before :=
    ⟨fun e e' he he' ↦ absurd (trans_of (· < ·) he he') (irrefl_of (· < ·) e.1)⟩
  have rows {t : Table K V} (ht : t.Ascending) : List.Pairwise before t := List.pairwise_map.mp ht
  exact (rows hs).eq_of_mem_iff (rows ht) h

/-- A key of a table in ascending order has a single value. -/
theorem Ascending.valuesWhere_eq [DecidableEq K] {k : K} {v : V} (h : t.Ascending)
    (mem : (k, v) ∈ t) : valuesWhere t (fun x ↦ x = k) = [v] := by
  induction t with
  | nil => exact absurd mem List.not_mem_nil
  | cons e rest ih =>
    obtain ⟨first, ascending⟩ := List.pairwise_cons.mp h
    rw [valuesWhere_cons]
    rcases List.mem_cons.mp mem with rfl | mem
    · rw [if_pos (decide_eq_true rfl), valuesWhere_eq_nil]
      intro x hx
      exact decide_eq_false fun same ↦ irrefl_of (· < ·) k (same ▸ first x hx)
    · rw [if_neg]
      · exact ih ascending mem
      · intro same
        have later := first k (List.mem_map_of_mem mem)
        exact irrefl_of (· < ·) k (of_decide_eq_true same ▸ later)

end Ascending

/-- What holds of a new value and of combined ones holds after an insertion. -/
theorem forall_values_upsert {P : V → Prop} {combine : V → V → V}
    (hc : ∀ v w, P v → P w → P (combine v w)) {k : K} {v : V} (hv : P v) {t : Table K V}
    (ht : ∀ e ∈ t, P e.2) : ∀ e ∈ upsert combine k v t, P e.2 := by
  induction t with
  | nil => simpa [upsert] using hv
  | cons e rest ih =>
    obtain ⟨a, w⟩ := e
    obtain ⟨hw, hr⟩ := List.forall_mem_cons.mp ht
    unfold upsert
    split
    · exact List.forall_mem_cons.mpr ⟨hv, ht⟩
    · split
      · exact List.forall_mem_cons.mpr ⟨hw, ih hr⟩
      · exact List.forall_mem_cons.mpr ⟨hc w v hw hv, hr⟩

/-- What holds of the values of two tables and of combined ones holds after merging. -/
theorem forall_values_merge {P : V → Prop} {combine : V → V → V}
    (hc : ∀ v w, P v → P w → P (combine v w)) {s t : Table K V} (hs : ∀ e ∈ s, P e.2)
    (ht : ∀ e ∈ t, P e.2) : ∀ e ∈ merge combine s t, P e.2 := by
  fun_induction merge combine s t with
  | case1 ys => exact ht
  | case2 x xs => exact hs
  | case3 a v xs b w ys hab ih =>
    obtain ⟨hv, hx⟩ := List.forall_mem_cons.mp hs
    exact List.forall_mem_cons.mpr ⟨hv, ih hx ht⟩
  | case4 a v xs b w ys hab hba ih =>
    obtain ⟨hw, hy⟩ := List.forall_mem_cons.mp ht
    exact List.forall_mem_cons.mpr ⟨hw, ih hs hy⟩
  | case5 a v xs b w ys hab hba ih =>
    obtain ⟨hv, hx⟩ := List.forall_mem_cons.mp hs
    obtain ⟨hw, hy⟩ := List.forall_mem_cons.mp ht
    exact List.forall_mem_cons.mpr ⟨hc v w hv hw, ih hx hy⟩

end DicePool.Table
