/-!
# Ordered tables

A table lists keys in strictly ascending order, each with a value. Entries are put in their place,
and an entry that meets one of the same key is combined with it. Keys are compared by `<` alone:
two keys neither of which is less are the same key.
-/

namespace DicePool

/-- Keys with their values, ascending by key. -/
abbrev Table (K V : Type) := List (K × V)

namespace Table

variable {K V : Type}

/-- The keys of a table. -/
def keys (t : Table K V) : List K := t.map Prod.fst

/-- The values of a table. -/
def values (t : Table K V) : List V := t.map Prod.snd

/-- The values whose keys satisfy a predicate. -/
def valuesWhere (t : Table K V) (p : K → Bool) : List V := values (t.filter fun e ↦ p e.1)

/-- Whether the keys ascend strictly. -/
def Ascending [LT K] (t : Table K V) : Prop := t.keys.Pairwise (· < ·)

/-- The values of a set of keys, by whether the first key belongs to it. -/
theorem valuesWhere_cons (e : K × V) (t : Table K V) (p : K → Bool) :
    valuesWhere (e :: t) p = if p e.1 then e.2 :: valuesWhere t p else valuesWhere t p := by
  unfold valuesWhere values
  rw [List.filter_cons]
  split <;> rfl

/-- The values of all keys. -/
theorem valuesWhere_true (t : Table K V) : valuesWhere t (fun _ ↦ true) = values t := by
  rw [valuesWhere, List.filter_eq_self.mpr fun _ _ ↦ rfl]

/-- Sets that agree on the keys of a table have the same values. -/
theorem valuesWhere_congr {t : Table K V} {p q : K → Bool} (h : ∀ k ∈ t.keys, p k = q k) :
    valuesWhere t p = valuesWhere t q := by
  unfold valuesWhere
  congr 1
  apply List.filter_congr
  intro e he
  exact h e.1 (List.mem_map_of_mem he)

/-- A set without keys of a table has no values. -/
theorem valuesWhere_eq_nil {t : Table K V} {p : K → Bool} (h : ∀ k ∈ t.keys, p k = false) :
    valuesWhere t p = [] := by
  unfold valuesWhere values
  rw [List.filter_eq_nil_iff.mpr, List.map_nil]
  intro e he
  simp only [h e.1 (List.mem_map_of_mem he), Bool.false_eq_true, not_false_eq_true]

variable [LT K] [DecidableLT K]

/-- Puts an entry in its place. An entry of the same key has its value combined with the new
one. -/
def upsert (combine : V → V → V) (k : K) (v : V) : Table K V → Table K V
  | [] => [(k, v)]
  | (a, w) :: rest =>
    if k < a then (k, v) :: (a, w) :: rest
    else if a < k then (a, w) :: upsert combine k v rest
    else (a, combine w v) :: rest

/-- All entries of two tables, those of the same key combined. -/
def merge (combine : V → V → V) : Table K V → Table K V → Table K V
  | [], ys => ys
  | x :: xs, [] => x :: xs
  | (a, v) :: xs, (b, w) :: ys =>
    if a < b then (a, v) :: merge combine xs ((b, w) :: ys)
    else if b < a then (b, w) :: merge combine ((a, v) :: xs) ys
    else (a, combine v w) :: merge combine xs ys
termination_by xs ys => xs.length + ys.length

instance (t : Table K V) : Decidable t.Ascending :=
  inferInstanceAs (Decidable (t.keys.Pairwise (· < ·)))

/-- An entry before all others is put first. -/
theorem upsert_of_forall_lt (combine : V → V → V) {k : K} (v : V) {t : Table K V}
    (h : ∀ x ∈ t.keys, k < x) : upsert combine k v t = (k, v) :: t := by
  cases t with
  | nil => rfl
  | cons e rest =>
    obtain ⟨a, w⟩ := e
    rw [upsert, if_pos (h a List.mem_cons_self)]

/-- Every key after an insertion is the new one or an old one. -/
theorem mem_keys_upsert {combine : V → V → V} {k : K} {v : V} {t : Table K V} {x : K}
    (h : x ∈ (upsert combine k v t).keys) : x = k ∨ x ∈ t.keys := by
  induction t with
  | nil => exact Or.inl (by simpa [upsert, keys] using h)
  | cons e rest ih =>
    obtain ⟨a, w⟩ := e
    unfold upsert at h
    split at h
    · simpa [keys] using h
    · split at h
      · simp only [keys, List.map_cons, List.mem_cons] at h ⊢
        rcases h with h | h
        · exact Or.inr (Or.inl h)
        · rcases ih h with h | h
          · exact Or.inl h
          · exact Or.inr (Or.inr h)
      · exact Or.inr h

end Table
end DicePool
