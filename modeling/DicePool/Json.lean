import DicePool.Text.Numeral

/-!
# JSON values

Ordered JSON values and their compact text: no blanks, fields in their own order, and in strings
only quotes, backslashes and control characters escaped.
-/

namespace DicePool

/-- A JSON value. Numbers carry their own text. -/
inductive Json where
  | null
  | bool (b : Bool)
  | number (text : String)
  | string (s : String)
  | array (items : List Json)
  | object (fields : List (String × Json))
  deriving Repr

namespace Json

/-- A natural number. -/
def ofNat (n : Nat) : Json := number (Numeral.ofNat n)

/-- A value that may be absent. -/
def ofOption {α : Type} (f : α → Json) : Option α → Json
  | none => null
  | some a => f a

/-- A list of values of one form. -/
def ofList {α : Type} (f : α → Json) (items : List α) : Json := array (items.map f)

/-- One character inside a string. -/
def escapedChar (c : Char) : List Char :=
  match c with
  | '\"' => ['\\', '\"']
  | '\\' => ['\\', '\\']
  | '\x08' => ['\\', 'b']
  | '\t' => ['\\', 't']
  | '\n' => ['\\', 'n']
  | '\x0c' => ['\\', 'f']
  | '\r' => ['\\', 'r']
  | c =>
    if c.toNat < 0x20 then
      ['\\', 'u', '0', '0', Nat.digitChar (c.toNat / 16), Nat.digitChar (c.toNat % 16)]
    else [c]

/-- A string between quotes. -/
def escaped (s : String) : List Char := '\"' :: s.toList.flatMap escapedChar ++ ['\"']

mutual

/-- The compact text of a value. -/
def write : Json → List Char
  | null => "null".toList
  | bool b => if b then "true".toList else "false".toList
  | number text => text.toList
  | string s => escaped s
  | array items => '[' :: writeItems items ++ [']']
  | object fields => '\x7b' :: writeFields fields ++ ['\x7d']

/-- The items of an array, separated by commas. -/
def writeItems : List Json → List Char
  | [] => []
  | [item] => write item
  | item :: next :: rest => write item ++ ',' :: writeItems (next :: rest)

/-- The fields of an object, separated by commas. -/
def writeFields : List (String × Json) → List Char
  | [] => []
  | [(name, value)] => escaped name ++ ':' :: write value
  | (name, value) :: next :: rest =>
    escaped name ++ ':' :: write value ++ ',' :: writeFields (next :: rest)

end

/-- The compact text of a value as a string. -/
def render (j : Json) : String := String.ofList j.write

end Json
end DicePool
