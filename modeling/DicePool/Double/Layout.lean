import DicePool.Double.Shortest

/-!
# Writing doubles

A decimal is written with a plain point as long as its power of ten lies in a given range, and with
an exponent outside of it.
-/

namespace DicePool

/-- How doubles are written: the range of powers of ten that are written plainly, and the sign of
a positive exponent. -/
structure NumberLayout where
  leastPlain : Int
  greatestPlain : Int
  plus : String
  deriving Repr, DecidableEq

namespace NumberLayout

/-- A decimal with its point in place and at least one digit on either side. -/
def plain (d : Decimal) : List Char :=
  if d.exponent < 0 then
    ['0', '.'] ++ List.replicate (-d.exponent - 1).toNat '0' ++ d.digits
  else
    let whole := d.exponent.toNat + 1
    let fraction := d.digits.drop whole
    d.digits.take whole ++ List.replicate (whole - d.digits.length) '0'
      ++ '.' :: (if fraction = [] then ['0'] else fraction)

/-- A decimal with its point after the first digit, if there are more, and its power of ten. -/
def scientific (layout : NumberLayout) (d : Decimal) : List Char :=
  let fraction := d.digits.drop 1
  let sign := if d.exponent < 0 then "-" else layout.plus
  d.digits.take 1 ++ (if fraction = [] then [] else '.' :: fraction)
    ++ 'e' :: sign.toList ++ Numeral.digits d.exponent.natAbs

/-- A decimal in the form that its power of ten asks for. -/
def decimal (layout : NumberLayout) (d : Decimal) : List Char :=
  if layout.leastPlain ≤ d.exponent ∧ d.exponent ≤ layout.greatestPlain then plain d
  else layout.scientific d

/-- A finite double in its shortest digits; infinities and what is no number are not written. -/
def text? (layout : NumberLayout) : Double → Option String
  | .finite negative mantissa exponent =>
    let digits :=
      if mantissa = 0 then ['0', '.', '0'] else layout.decimal (Double.shortest mantissa exponent)
    some (String.ofList (if negative then '-' :: digits else digits))
  | _ => none

end NumberLayout
end DicePool
