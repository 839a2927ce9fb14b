import DicePool.Modifiers.Pool
import DicePool.Roll.Context
import DicePool.Spec

/-!
# Rolling a specification

Every die is drawn, drawn again as the reroll asks, boosted, and followed by more dice as long as
its boosted value explodes. The pool of all values is then kept from and dropped from. Each
evaluation begins with the whole budget.
-/

namespace DicePool

/-- The faces of one evaluation (`RollResult`): every die that was listed, and the values that
count. -/
structure Outcome where
  natural : List Face
  modified : List Face
  deriving Repr, DecidableEq

/-- The values of one die and of the dice that its explosions added (`Position`). -/
structure Chain where
  natural : List Value
  modified : List Value
  deriving Repr, DecidableEq

/-- The chain of a die with value `v` and boosted value `b` after which `extra` was rolled.
A penetrating die loses one; compounding dice are summed into the first and not listed. -/
def Explosion.extend (e : Explosion) (v b : Value) (extra : Chain) : Chain :=
  let extras :=
    match extra.modified with
    | [] => []
    | x :: xs => (if e.penetrate then Value.minus x 1 else x) :: xs
  if e.compound then ⟨[v], [Value.plus b (Value.sum extras)]⟩
  else ⟨v :: extra.natural, b :: extras⟩

namespace Rolling

variable {σ : Type} [Roller σ]

/-- Draws until a value does not meet the condition. With `budget` draws left, the draw after the
last of them fails. -/
def drawUntilUnmet (faces : FaceSet) (condition : Condition) : (budget : Nat) → Rolling σ Value
  | 0 => drawValue faces
  | budget + 1 => do
    let v ← drawValue faces
    if condition.holds v then drawUntilUnmet faces condition budget else return v

/-- The value that a die settles on after rerolls. -/
def settle (spec : Spec) : Rolling σ Value := do
  match spec.modifiers.reroll? with
  | none => drawValue spec.faces
  | some r =>
    if r.once then
      let v ← drawValue spec.faces
      if r.condition.holds v then drawValue spec.faces else return v
    else drawUntilUnmet spec.faces r.condition (← get).remaining

/-- Rolls one die and the dice of its explosions, of which at most `allowance` may follow
(`roll_position`). -/
def chain (spec : Spec) (allowance : Nat) : Rolling σ Chain := do
  let v ← settle spec
  let b := spec.modifiers.boost.apply v
  match spec.modifiers.explode? with
  | none => return ⟨[v], [b]⟩
  | some e =>
    if e.condition.holds b then
      match allowance with
      | 0 => throw (.explosionDepthExceeded (← get).limits.explosionDepth)
      | left + 1 => return e.extend v b (← chain spec left)
    else return ⟨[v], [b]⟩

/-- Rolls a number of dice with their explosions, one after the other. -/
def chains (spec : Spec) : (dice : Nat) → Rolling σ Chain
  | 0 => return ⟨[], []⟩
  | dice + 1 => do
    let first ← chain spec (← get).limits.explosionDepth
    let rest ← chains spec dice
    return ⟨first.natural ++ rest.natural, first.modified ++ rest.modified⟩

/-- Draws a number of faces. -/
def drawMany (faces : FaceSet) : (dice : Nat) → Rolling σ (List Face)
  | 0 => return []
  | dice + 1 => return (← draw faces) :: (← drawMany faces dice)

/-- Rolls a specification. Only the faces of dice that show labels are drawn. -/
def evaluate (spec : Spec) : Rolling σ Outcome := do
  refill
  if spec.isNumeric then
    let all ← chains spec spec.count
    return ⟨all.natural.map .number, (spec.modifiers.filterPool all.modified).map .number⟩
  else
    let faces ← drawMany spec.faces spec.count
    return ⟨faces, faces⟩

end Rolling
end DicePool
