import DicePool.Operator

/-!
# Modifiers

What can be asked of a roll beyond its count and faces. Each modifier has a kind, and a roll has
at most one modifier of each kind.
-/

namespace DicePool

/-- The kinds of modifiers, in the order in which a specification lists them. -/
inductive ModifierKind where
  | boost
  | adjust
  | success
  | keep
  | drop
  | explode
  | reroll
  | fail
  | naturalSuccess
  | naturalFail
  | totalCheck
  deriving Repr, DecidableEq

namespace ModifierKind

/-- All kinds, in order. -/
def all : List ModifierKind :=
  [boost, adjust, success, keep, drop, explode, reroll, fail, naturalSuccess, naturalFail,
    totalCheck]

/-- The letters that introduce a modifier of this kind (`token`). -/
def letters : ModifierKind → String
  | boost => "b"
  | adjust => "l"
  | success => "s"
  | keep => "k"
  | drop => "d"
  | explode => "x"
  | reroll => "r"
  | fail => "f"
  | naturalSuccess => "ns"
  | naturalFail => "nf"
  | totalCheck => "t"

/-- The letters in single quotes. -/
def text (k : ModifierKind) : String := "'" ++ k.letters ++ "'"

/-- Every kind is listed. -/
theorem mem_all (k : ModifierKind) : k ∈ all := by cases k <;> decide

end ModifierKind

/-- Which end of a sorted pool is meant. -/
inductive Layer where
  | high
  | low
  deriving Repr, DecidableEq

/-- The letter of a layer. -/
def Layer.letter : Layer → String
  | .high => "h"
  | .low => "l"

/-- Arithmetic on every die, done before explosions are tested. -/
structure Boost where
  operator : Arithmetic
  magnitude : Int
  deriving Repr, DecidableEq

namespace Boost

/-- The boost that adds zero. -/
def identity : Boost := ⟨.add, 0⟩

/-- The boosted value of a die. -/
def apply (b : Boost) (v : Value) : Value := b.operator.apply v b.magnitude

/-- Whether the boost leaves every value alone (`is_identity`). -/
def isIdentity (b : Boost) : Bool :=
  match b.operator with
  | .add | .subtract => b.magnitude = 0
  | .multiply | .divide => b.magnitude = 1

/-- The operator and the magnitude. -/
def text (b : Boost) : String := b.operator.symbol ++ Numeral.ofInt b.magnitude

end Boost

/-- A number of dice at one end of a sorted pool (`Keep`, `Drop`). -/
structure Selection where
  layer : Layer
  count : Nat
  deriving Repr, DecidableEq

/-- The letter of the layer and the count. -/
def Selection.text (s : Selection) : String := s.layer.letter ++ Numeral.ofNat s.count

/-- Rolling again for every value that meets a condition (`Explode`): the extra dice are listed on
their own or summed into the first, and penetrating ones lose one each. -/
structure Explosion where
  condition : Condition
  compound : Bool
  penetrate : Bool
  deriving Repr, DecidableEq

/-- The letters of an explosion and its condition. -/
def Explosion.text (e : Explosion) : String :=
  "x" ++ (if e.compound then "x" else "") ++ (if e.penetrate then "p" else "") ++ e.condition.text

/-- Drawing again while, or once if, a value meets a condition. -/
structure Reroll where
  condition : Condition
  once : Bool
  deriving Repr, DecidableEq

/-- The letters of a reroll and its condition. -/
def Reroll.text (r : Reroll) : String := (if r.once then "ro" else "r") ++ r.condition.text

/-- One modifier of a roll. -/
inductive Modifier where
  | boost (b : Boost)
  | adjust (amount : Int)
  | success (c : Condition)
  | keep (s : Selection)
  | drop (s : Selection)
  | explode (e : Explosion)
  | reroll (r : Reroll)
  | fail (c : Condition)
  | naturalSuccess (c : Condition)
  | naturalFail (c : Condition)
  | totalCheck (c : Condition)
  deriving Repr, DecidableEq

namespace Modifier

/-- The kind of a modifier. -/
def kind : Modifier → ModifierKind
  | boost _ => .boost
  | adjust _ => .adjust
  | success _ => .success
  | keep _ => .keep
  | drop _ => .drop
  | explode _ => .explode
  | reroll _ => .reroll
  | fail _ => .fail
  | naturalSuccess _ => .naturalSuccess
  | naturalFail _ => .naturalFail
  | totalCheck _ => .totalCheck

/-- The letters of the modifier and what they apply to, with no default left out. -/
def text : Modifier → String
  | boost b => "b" ++ b.text
  | adjust a => "l" ++ Numeral.signed a
  | success c => "s" ++ c.text
  | keep s => "k" ++ s.text
  | drop s => "d" ++ s.text
  | explode e => e.text
  | reroll r => r.text
  | fail c => "f" ++ c.text
  | naturalSuccess c => "ns" ++ c.text
  | naturalFail c => "nf" ++ c.text
  | totalCheck c => "t" ++ c.text

end Modifier
end DicePool
