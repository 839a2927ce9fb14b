/-!
# Rollers

A roller answers a number of sides with a number that stands for the face that comes up, counted
from one, and moves to its next state.
-/

namespace DicePool

/-- A source of rolls whose states are of type `σ`. -/
class Roller (σ : Type) where
  /-- The answer for a number of sides, and the next state. -/
  roll : σ → Nat → Nat × σ

/-- A roller together with the number of rolls that it has answered. -/
structure Counted (σ : Type) where
  source : σ
  draws : Nat := 0

/-- A counted roller answers like the roller that it counts. -/
instance {σ : Type} [Roller σ] : Roller (Counted σ) where
  roll s sides :=
    let (answer, source) := Roller.roll s.source sides
    (answer, ⟨source, s.draws + 1⟩)

end DicePool
