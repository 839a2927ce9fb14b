import DicePool.Text.Numeral
import DicePool.Text.Printable

/-!
# Quoted texts

A text between double quotes in which every character shows on one line. Quotes, backslashes,
tabs, line breaks and the null character have short escapes, all other characters that are not
printable are written by their code point.
-/

namespace DicePool.Text

/-- One character inside double quotes. -/
def quotedChar (c : Char) : List Char :=
  match c with
  | '\"' => ['\\', '\"']
  | '\\' => ['\\', '\\']
  | '\t' => ['\\', 't']
  | '\n' => ['\\', 'n']
  | '\r' => ['\\', 'r']
  | '\x00' => ['\\', '0']
  | c =>
    if isPrintable c then [c]
    else ['\\', 'u', '\x7b'] ++ (Numeral.hex c.toNat).toList ++ ['\x7d']

/-- A text between double quotes. -/
def quoted (s : String) : String :=
  String.ofList ('\"' :: s.toList.flatMap quotedChar ++ ['\"'])

end DicePool.Text
