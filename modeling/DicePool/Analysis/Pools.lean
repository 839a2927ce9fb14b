/-!
# Counting pools

A pool of dice is given by how many of them show each face. Pools are visited in lexicographic
order of these counts; a pool weighs as many ordered rolls as it stands for.
-/

namespace DicePool.Pools

/-- The product for a binomial coefficient of `n` after a number of rounds: each multiplies by the
next number down from `n` and divides by the next one up from one. -/
def chooseAfter (n rounds : Nat) : Nat :=
  (List.range rounds).foldl (fun c i ↦ c * (n - i) / (i + 1)) 1

/-- The binomial coefficient, by a product from the shorter side in which every division is exact.
-/
def choose (n k : Nat) : Nat := chooseAfter n (min k (n - k))

/-- The product of the numbers from one to `n`. -/
def factorial : Nat → Nat
  | 0 => 1
  | n + 1 => (n + 1) * factorial n

/-- The number of ways to spread dice over faces. -/
def number (faces dice : Nat) : Nat := choose (dice + faces - 1) dice

/-- Visits every way to spread dice over the slots of a buffer from an index on, as the list of what
the buffer holds (`for_each_pool`). The slots before the index are left alone; the others are zero
in the end. -/
def visitFrom {β : Type} {slots : Nat} (visit : β → List Nat → β) (index dice : Nat)
    (h : index < slots) (counts : Vector Nat slots) (acc : β) : Vector Nat slots × β :=
  let filled :=
    if last : index + 1 = slots then
      let counts := counts.set index dice
      (counts, visit acc counts.toList)
    else
      (List.range (dice + 1)).foldl
        (fun s c ↦ visitFrom visit (index + 1) (dice - c) (by omega) (s.1.set index c) s.2)
        (counts, acc)
  (filled.1.set index 0, filled.2)
termination_by slots - index

/-- Visits every way to spread dice over a number of faces, as the list of the counts. The counts
are filled into a buffer that starts at zero. -/
def fold {β : Type} (visit : β → List Nat → β) (faces dice : Nat) (acc : β) : β :=
  if h : 0 < faces then (visitFrom visit 0 dice h (Vector.replicate faces 0) acc).2 else acc

/-- The number of ordered rolls with the given counts of faces of the given weights: dividing by
the factorial of each count and multiplying by the power of its weight in turn. -/
def weight (dice : Nat) (weights counts : List Nat) : Nat :=
  (weights.zip counts).foldl (fun w e ↦ w / factorial e.2 * Nat.pow e.1 e.2) (factorial dice)

/-- The faces of a pool, each as often as it is counted. -/
def expand {α : Type} (faces : List α) (counts : List Nat) : List α :=
  (faces.zip counts).flatMap fun e ↦ List.replicate e.2 e.1

/-- Another round multiplies by the next number down and divides by the next one up. -/
theorem chooseAfter_succ (n i : Nat) :
    chooseAfter n (i + 1) = chooseAfter n i * (n - i) / (i + 1) := by
  rw [chooseAfter, List.range_succ, List.foldl_append]
  rfl

end DicePool.Pools
