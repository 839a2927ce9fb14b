import DicePool.Sum
import DicePool.Table

/-!
# Tallies

A tally counts outcomes with whole weights. Outcomes without weight are not stored, and the total
of all weights is kept beside them. Exact enumeration and sampling both end in a tally.
-/

namespace DicePool

/-- Weights of outcomes, and their total. -/
structure Tally (K : Type) where
  counts : Table K Nat
  total : Nat
  deriving Repr, DecidableEq

namespace Tally

variable {K : Type}

/-- The tally without outcomes. -/
def empty : Tally K := ⟨[], 0⟩

/-- The weight of the outcomes that satisfy a predicate. -/
def weightWhere (t : Tally K) (p : K → Bool) : Nat := sumOf (Table.valuesWhere t.counts p)

/-- The weight of an outcome. -/
def weight [DecidableEq K] (t : Tally K) (k : K) : Nat := t.weightWhere fun x ↦ x = k

/-- What every tally satisfies: outcomes ascend, stored weights are positive, and the total is
their sum. -/
def WellFormed [LT K] (t : Tally K) : Prop :=
  Table.Ascending t.counts ∧ (∀ e ∈ t.counts, 0 < e.2) ∧ t.total = sumOf (Table.values t.counts)

variable [LT K] [DecidableLT K]

/-- Adds weight to an outcome. -/
def record (t : Tally K) (k : K) (w : Nat) : Tally K :=
  if w = 0 then t else ⟨Table.upsert (· + ·) k w t.counts, t.total + w⟩

/-- Adds one occurrence of an outcome (`record_one`). -/
def recordOne (t : Tally K) (k : K) : Tally K := t.record k 1

/-- The tally of a list of outcomes. -/
def ofList (ks : List K) : Tally K := ks.foldr (fun k t ↦ t.recordOne k) empty

/-- The counts shifted by an outcome and scaled by its weight. A weight of one scales nothing, and
outcomes that stay in order are put in front of the later ones at once. -/
def shift [Add K] (counts : Table K Nat) (k : K) (w : Nat) : Table K Nat :=
  counts.foldr
    (fun e shifted ↦ Table.upsert (· + ·) (e.1 + k) (if w = 1 then e.2 else e.2 * w) shifted) []

/-- The tally of the sum of two independent outcomes: the counts of the first, shifted and scaled
once for each outcome of the second. -/
def convolve [Add K] (a b : Tally K) : Tally K :=
  ⟨b.counts.foldl (fun sums e ↦ Table.merge (· + ·) sums (shift a.counts e.1 e.2)) [],
    a.total * b.total⟩

/-- The tally of the sum of `n` independent outcomes (`convolve_n`); a single outcome for `n` below
two. -/
def power [Add K] (t : Tally K) : (n : Nat) → Tally K
  | 0 => t
  | 1 => t
  | n + 2 => (power t (n + 1)).convolve t

omit [DecidableLT K] in
/-- The empty tally is well-formed. -/
theorem wellFormed_empty : (empty : Tally K).WellFormed :=
  ⟨List.Pairwise.nil, by simp [empty], rfl⟩

omit [LT K] [DecidableLT K] in
/-- The weight of all outcomes is the sum of the stored weights. -/
theorem weightWhere_true (t : Tally K) :
    t.weightWhere (fun _ ↦ true) = sumOf (Table.values t.counts) := by
  rw [weightWhere, Table.valuesWhere_true]

/-- Every shifted entry is put in its place with the product of the weights. -/
theorem shift_eq [Add K] (counts : Table K Nat) (k : K) (w : Nat) :
    shift counts k w =
      counts.foldr (fun e shifted ↦ Table.upsert (· + ·) (e.1 + k) (e.2 * w) shifted) [] := by
  unfold shift
  split
  · next h => simp [h]
  · rfl

/-- The last entry that is shifted is the first one. -/
theorem shift_cons [Add K] (e : K × Nat) (counts : Table K Nat) (k : K) (w : Nat) :
    shift (e :: counts) k w =
      Table.upsert (· + ·) (e.1 + k) (e.2 * w) (shift counts k w) := by
  rw [shift_eq, shift_eq, List.foldr_cons]

/-- Recording nothing changes nothing. -/
theorem record_zero (t : Tally K) (k : K) : t.record k 0 = t := by simp [record]

/-- The total grows by the recorded weight. -/
theorem total_record (t : Tally K) (k : K) (w : Nat) : (t.record k w).total = t.total + w := by
  unfold record
  split
  · next h => simp [h]
  · rfl

/-- A record adds no outcome but its own. -/
theorem mem_keys_record {t : Tally K} {k x : K} {w : Nat}
    (h : x ∈ Table.keys (t.record k w).counts) : x = k ∨ x ∈ Table.keys t.counts := by
  unfold record at h
  split at h
  · exact .inr h
  · exact Table.mem_keys_upsert h

/-- A list is tallied with a total of its length. -/
theorem total_ofList (ks : List K) : (ofList ks).total = ks.length := by
  induction ks with
  | nil => rfl
  | cons k ks ih =>
    have h : ofList (k :: ks) = (ofList ks).recordOne k := rfl
    rw [h, recordOne, total_record, ih, List.length_cons]

end Tally
end DicePool
