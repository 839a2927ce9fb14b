import DicePool.Value

/-!
# Comparison and arithmetic operators

Every threshold test and every change to a single die goes through the two operators of this
module. A condition compares a value with a fixed integer threshold.
-/

namespace DicePool

/-- The six ways to compare two values (`CmpOp`). -/
inductive Comparison where
  | less
  | lessEqual
  | greater
  | greaterEqual
  | equal
  | notEqual
  deriving Repr, DecidableEq

namespace Comparison

/-- All comparisons. -/
def all : List Comparison := [less, lessEqual, greater, greaterEqual, equal, notEqual]

/-- The symbol that stands for a comparison; equality is a single `=`. -/
def symbol : Comparison → String
  | less => "<"
  | lessEqual => "<="
  | greater => ">"
  | greaterEqual => ">="
  | equal => "="
  | notEqual => "!="

/-- Reads a symbol (`from_symbol`). Equality may be doubled. -/
def ofSymbol? (s : String) : Option Comparison :=
  if s = "==" then some equal else all.find? fun c ↦ c.symbol = s

/-- Whether the comparison holds between two values (`compare`). -/
def holds (c : Comparison) (a b : Value) : Bool :=
  match c with
  | less => a < b
  | lessEqual => a ≤ b
  | greater => b < a
  | greaterEqual => b ≤ a
  | equal => a = b
  | notEqual => a ≠ b

/-- Every comparison is read back from its symbol. -/
theorem ofSymbol?_symbol (c : Comparison) : ofSymbol? c.symbol = some c := by
  cases c <;> decide

end Comparison

/-- The four ways to change a die by a fixed number (`ArithOp`). -/
inductive Arithmetic where
  | add
  | subtract
  | multiply
  | divide
  deriving Repr, DecidableEq

namespace Arithmetic

/-- All arithmetic operators. -/
def all : List Arithmetic := [add, subtract, multiply, divide]

/-- The symbol that stands for an operator. -/
def symbol : Arithmetic → String
  | add => "+"
  | subtract => "-"
  | multiply => "*"
  | divide => "/"

/-- Reads a symbol. -/
def ofSymbol? (s : String) : Option Arithmetic := all.find? fun o ↦ o.symbol = s

/-- The result of the operator. Expressions that divide by zero are refused when read. -/
def apply (o : Arithmetic) (a b : Value) : Value :=
  match o with
  | add => Value.plus a b
  | subtract => Value.minus a b
  | multiply => Value.times a b
  | divide => Value.dividedBy a b

/-- Every operator is read back from its symbol. -/
theorem ofSymbol?_symbol (o : Arithmetic) : ofSymbol? o.symbol = some o := by
  cases o <;> decide

end Arithmetic

/-- A comparison against a fixed integer threshold. -/
structure Condition where
  comparison : Comparison
  threshold : Int
  deriving Repr, DecidableEq

namespace Condition

/-- Whether a value meets the condition (`matches`). -/
def holds (c : Condition) (v : Value) : Bool := c.comparison.holds v c.threshold

/-- The symbol of the comparison, then the threshold. -/
def text (c : Condition) : String := c.comparison.symbol ++ Numeral.ofInt c.threshold

end Condition
end DicePool
