import DicePool.Tally
import DicePool.Value

/-!
# Distributions

A distribution gives outcomes their exact masses, ascending by outcome. Masses may be any
fractions; those of a tally are its weights divided by their total.
-/

namespace DicePool

/-- Outcomes with their masses. -/
structure Distribution (K : Type) where
  outcomes : Table K Probability
  deriving Repr, DecidableEq

namespace Distribution

variable {K : Type}

/-- The number of listed outcomes (`len`). -/
def size (d : Distribution K) : Nat := d.outcomes.length

/-- The least outcome. -/
def min? (d : Distribution K) : Option K := d.outcomes.head?.map Prod.fst

/-- The greatest outcome. -/
def max? (d : Distribution K) : Option K := d.outcomes.getLast?.map Prod.fst

/-- The mass of all outcomes together (`total_mass`). -/
def mass (d : Distribution K) : Probability := sumOf (Table.values d.outcomes)

/-- The mass of the outcomes that satisfy a predicate (`mass_where`). -/
def massWhere (d : Distribution K) (p : K → Bool) : Probability :=
  sumOf (Table.valuesWhere d.outcomes p)

/-- The mass of an outcome, zero if it is not listed. -/
def probability [DecidableEq K] (d : Distribution K) (k : K) : Probability :=
  d.massWhere fun x ↦ x = k

/-- The distribution of a tally (`into_distribution`). -/
def ofTally (t : Tally K) : Distribution K :=
  ⟨t.counts.map fun e ↦ (e.1, (e.2 : Probability) / (t.total : Probability))⟩

variable [LT K] [DecidableLT K]

/-- The distribution with the given masses; of a repeated outcome the last mass counts. -/
def ofPairs (pairs : List (K × Probability)) : Distribution K :=
  ⟨pairs.foldr (fun e t ↦ Table.upsert (fun later _ ↦ later) e.1 e.2 t) []⟩

/-- The distribution with every outcome relabelled; outcomes that meet add their masses. -/
def map {J : Type} [LT J] [DecidableLT J] (f : K → J) (d : Distribution K) : Distribution J :=
  ⟨d.outcomes.foldr (fun e t ↦ Table.upsert (· + ·) (f e.1) e.2 t) []⟩

omit [LT K] [DecidableLT K] in
/-- The mass of all outcomes is the mass of those that satisfy what every outcome satisfies. -/
theorem massWhere_true (d : Distribution K) : d.massWhere (fun _ ↦ true) = d.mass := by
  rw [massWhere, mass, Table.valuesWhere_true]

end Distribution
end DicePool
