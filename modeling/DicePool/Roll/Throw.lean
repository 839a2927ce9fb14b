import DicePool.Report
import DicePool.Roll.Expression

/-!
# Throws

A throw never fails: it is a scored roll, or a sentence that says what was wrong.
-/

namespace DicePool

/-- What comes of a throw. -/
inductive Throw where
  | rolled (scored : Scored)
  | bad (why : String)
  deriving Repr, DecidableEq

namespace Throw

/-- A roll or its error as a throw. -/
def ofResult : Except Error Scored → Throw
  | .ok scored => rolled scored
  | .error e => bad ("Bad roll: " ++ e.message)

/-- Whether something was wrong (`is_bad`). -/
def isBad : Throw → Bool
  | rolled _ => false
  | bad _ => true

/-- The report on the roll, or what was wrong. -/
def text : Throw → String
  | rolled scored => scored.json.render
  | bad why => why

/-- Throws an expression (`throw_with`). -/
def run {σ : Type} [Roller σ] (expression : String) (c : Context σ) : Throw × Context σ :=
  let (result, c) := (Rolling.roll expression).run c
  (ofResult result, c)

end Throw
end DicePool
