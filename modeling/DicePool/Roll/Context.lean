import DicePool.Error
import DicePool.Limits
import DicePool.Roller

/-!
# Rolling under limits

A context holds the limits, the draws that are left and the state of the roller. An action changes
it also when it fails: draws are not taken back. A draw without budget fails and leaves the roller
alone.
-/

namespace DicePool

/-- The limits of a series of rolls, the draws left, and the state of the roller (`RollContext`). -/
structure Context (σ : Type) where
  limits : Limits
  remaining : Nat
  source : σ

/-- A context with the whole budget of its limits. -/
def Context.new {σ : Type} (limits : Limits) (source : σ) : Context σ :=
  ⟨limits, limits.rolls, source⟩

/-- An action on a context that may fail. -/
abbrev Rolling (σ : Type) : Type → Type := ExceptT Error (StateM (Context σ))

namespace Rolling

variable {σ : Type}

/-- Runs an action on a context. -/
def run {α : Type} (action : Rolling σ α) (c : Context σ) : Except Error α × Context σ := action c

/-- An action that only reads a text. -/
def ofParse {α : Type} : Except ParseError α → Rolling σ α
  | .ok a => pure a
  | .error e => throw (.parse e)

/-- Gives the context the whole budget of its limits. -/
def refill : Rolling σ Unit := modify fun c ↦ { c with remaining := c.limits.rolls }

variable [Roller σ]

/-- Draws one face at the cost of one unit of the budget. -/
def draw (faces : FaceSet) : Rolling σ Face := do
  let c ← get
  match c.remaining with
  | 0 => throw (.tooManyRolls c.limits.rolls)
  | left + 1 =>
    let (answer, source) := Roller.roll c.source faces.size
    set { c with remaining := left, source }
    return faces.face answer

/-- Draws the number on a face (`draw_value`); a label counts as zero. -/
def drawValue (faces : FaceSet) : Rolling σ Value := do
  return (← draw faces).number?.getD 0

/-- A draw without budget fails and changes nothing. -/
theorem run_draw_of_remaining_eq_zero (faces : FaceSet) (c : Context σ) (h : c.remaining = 0) :
    (draw faces).run c = (.error (.tooManyRolls c.limits.rolls), c) := by
  obtain ⟨limits, remaining, source⟩ := c
  cases h
  rfl

/-- A draw with budget asks the roller once. -/
theorem run_draw_of_remaining_eq_succ (faces : FaceSet) (c : Context σ) {left : Nat}
    (h : c.remaining = left + 1) :
    (draw faces).run c =
      (.ok (faces.face (Roller.roll c.source faces.size).1),
        { c with remaining := left, source := (Roller.roll c.source faces.size).2 }) := by
  obtain ⟨limits, remaining, source⟩ := c
  cases h
  rfl

end Rolling
end DicePool
