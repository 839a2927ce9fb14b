import DicePool.Face
import DicePool.Modifiers
import DicePool.Text.Span

/-!
# Roll specifications

A specification says how many dice are rolled, what they show, and what is done with them. Its
text is the shortest canonical expression for it.
-/

namespace DicePool

/-- A dice term inside an expression that was rolled and replaced by its total before the expression
was read. -/
structure Substitution where
  text : String
  total : Value
  /-- The operator right before the term. -/
  operator : String
  /-- Where the term stood in the expression. -/
  span : Span
  deriving Repr, DecidableEq

/-- A dice expression in full (`RollSpec`). -/
structure Spec where
  count : Nat
  faces : FaceSet
  modifiers : Modifiers
  substitutions : List Substitution := []
  deriving Repr, DecidableEq

namespace Spec

/-- Whether all faces are numbers (`is_numeric`). -/
def isNumeric (s : Spec) : Bool := s.faces.isNumeric

/-- The text of a modifier in an expression: what changes nothing is left out, boosts and total
adjustments stand as bare operators, and the success condition needs no letter. -/
def modifierText : Modifier → String
  | .boost b => if b.isIdentity then "" else b.text
  | .adjust a =>
    if a = 0 then "" else "=" ++ Numeral.signed a
  | .success c => c.text
  | x => x.text

/-- The canonical expression. -/
def text (s : Spec) : String :=
  Numeral.ofNat s.count ++ "d" ++ s.faces.text
    ++ String.join (s.modifiers.toList.map modifierText)

end Spec
end DicePool
