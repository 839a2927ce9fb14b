import DicePool.Value

/-!
# Double-precision numbers

Binary floating-point numbers of 53 bits, as sign, mantissa and exponent. An exact value is
rounded to the nearest of them, a tie to the even mantissa; square roots are rounded the same way.
-/

namespace DicePool

/-- A double: a mantissa of at most 53 bits times a power of two, an infinity, or no number. The
mantissa of a finite double has all 53 bits unless the exponent is the least one. -/
inductive Double where
  | finite (negative : Bool) (mantissa : Nat) (exponent : Int)
  | infinite (negative : Bool)
  | nan
  deriving Repr, DecidableEq

namespace Double

/-- The leading one of 53 bits. -/
def leadingBit : Nat := 4503599627370496

/-- The exponent of the smallest doubles. -/
def leastExponent : Int := -1074

/-- The exponent of the greatest doubles. -/
def greatestExponent : Int := 971

/-- A quotient rounded to the nearest integer, a tie to the even one. -/
def nearestEven (num den : Nat) : Nat :=
  let q := num / den
  let r := num % den
  if 2 * r < den then q
  else if den < 2 * r then q + 1
  else if q % 2 = 0 then q else q + 1

/-- Numerator and denominator of `num / den` over a power of two. -/
def scaled (num den : Nat) (exponent : Int) : Nat × Nat :=
  if 0 ≤ exponent then (num, den <<< exponent.toNat) else (num <<< (-exponent).toNat, den)

/-- The exponent at which a positive quotient has a mantissa of 53 bits, or the least one. -/
def exponentOf (num den : Nat) : Int :=
  let guess : Int := (num.log2 : Int) - den.log2 - 52
  let (n, d) := scaled num den guess
  max leastExponent (if n < leadingBit * d then guess - 1 else guess)

/-- The double nearest to a quotient with a sign. -/
def ofQuotient (negative : Bool) (num den : Nat) : Double :=
  if num = 0 then finite negative 0 leastExponent
  else
    let exponent := exponentOf num den
    let (n, d) := scaled num den exponent
    let mantissa := nearestEven n d
    let (mantissa, exponent) :=
      if mantissa = 2 * leadingBit then (leadingBit, exponent + 1) else (mantissa, exponent)
    if greatestExponent < exponent then infinite negative else finite negative mantissa exponent

/-- The double nearest to an exact value (`to_f64`). -/
def ofRat (q : Rat) : Double := ofQuotient (q.num < 0) q.num.natAbs q.den

/-- The greatest number whose square is at most `n`. -/
def squareRoot (n : Nat) : Nat :=
  if n = 0 then 0
  else
    let r := 2 * squareRoot (n / 4)
    if (r + 1) * (r + 1) ≤ n then r + 1 else r

/-- The square root of a positive double: the root of the mantissa is taken with more than twice
the bits, and half a unit stands for what is left of it. -/
def rootOf (mantissa : Nat) (exponent : Int) : Double :=
  let odd := exponent % 2
  let radicand := mantissa <<< (110 + odd).toNat
  let root := squareRoot radicand
  let twice := 2 * root + if root * root = radicand then 0 else 1
  let (n, d) := scaled twice 1 (-((exponent - odd - 110) / 2 - 1))
  ofQuotient false n d

/-- The square root, rounded to the nearest double. A negative number has none; both zeros are
their own roots. -/
def sqrt : Double → Double
  | finite negative mantissa exponent =>
    if mantissa = 0 then finite negative mantissa exponent
    else if negative then nan
    else rootOf mantissa exponent
  | infinite negative => if negative then nan else infinite false
  | nan => nan

end Double
end DicePool
