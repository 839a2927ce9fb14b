/-!
# Sums of lists

The sum of a list from its end, of weights, values or masses alike.
-/

namespace DicePool

/-- The sum of a list. -/
def sumOf {α : Type} [Add α] [OfNat α 0] (xs : List α) : α := xs.foldr (· + ·) 0

variable {α : Type} [Add α] [OfNat α 0]

/-- Nothing sums to zero. -/
theorem sumOf_nil : sumOf ([] : List α) = 0 := rfl

/-- The first item is added to the sum of the others. -/
theorem sumOf_cons (x : α) (xs : List α) : sumOf (x :: xs) = x + sumOf xs := rfl

end DicePool
