import DicePool.Double

/-!
# Shortest decimals

The fewest decimal digits that read back as the same double. The doubles next to a double bound an
interval of the values that round to it, both ends included when the mantissa is even. On each
decimal grid only the two neighbours of the value have to be tried.
-/

namespace DicePool

/-- A positive decimal: the digits with the point after the first of them, times a power of
ten. -/
structure Decimal where
  digits : List Char
  exponent : Int
  deriving Repr, DecidableEq

namespace Decimal

/-- The power of ten that a positive quotient reaches and whose tenfold it does not. -/
def magnitude (num den : Nat) : Int :=
  if den ≤ num then ((Numeral.digits (num / den)).length : Int) - 1
  else -((Numeral.digits ((den + num - 1) / num - 1)).length : Int)

/-- The decimal of `n` units of a power of ten, without zeros at its end. -/
def ofUnits (n : Nat) (power : Int) : Decimal :=
  let digits := Numeral.digits n
  ⟨(digits.reverse.dropWhile (· = '0')).reverse, (digits.length : Int) - 1 + power⟩

end Decimal

namespace Double

/-- A double as a quotient, with the ends of the interval that rounds to it, over one
denominator; and whether the ends belong to the interval. -/
structure Interval where
  low : Nat
  value : Nat
  high : Nat
  den : Nat
  closed : Bool
  deriving Repr, DecidableEq

/-- The interval of a positive finite double. Below a power of two the next double is half as far
away. -/
def interval (mantissa : Nat) (exponent : Int) : Interval :=
  let below := if mantissa = leadingBit ∧ leastExponent < exponent then 1 else 2
  let quarter (n : Nat) : Nat := if 2 ≤ exponent then n <<< (exponent - 2).toNat else n
  { low := quarter (4 * mantissa - below)
    value := quarter (4 * mantissa)
    high := quarter (4 * mantissa + 2)
    den := if 2 ≤ exponent then 1 else 1 <<< (2 - exponent).toNat
    closed := mantissa % 2 = 0 }

/-- Whether `n` units of a power of ten lie in the interval. -/
def Interval.holds (i : Interval) (power : Int) (n : Nat) : Bool :=
  let point := if 0 ≤ power then n * Nat.pow 10 power.toNat * i.den else n * i.den
  let bound (m : Nat) : Nat := if 0 ≤ power then m else m * Nat.pow 10 (-power).toNat
  if i.closed then bound i.low ≤ point && point ≤ bound i.high
  else bound i.low < point && point < bound i.high

/-- The grid neighbours of the value at a power of ten: the one below, and twice the distance to
it as a part of the unit, as a quotient. -/
def Interval.below (i : Interval) (power : Int) : Nat × Nat × Nat :=
  let (num, den) :=
    if 0 ≤ power then (i.value, i.den * Nat.pow 10 power.toNat)
    else (i.value * Nat.pow 10 (-power).toNat, i.den)
  (num / den, 2 * (num % den), den)

/-- The nearer grid neighbour in the interval, if any; a tie goes to the even one. -/
def Interval.nearest? (i : Interval) (power : Int) : Option Nat :=
  let (n, twice, den) := i.below power
  match i.holds power n, i.holds power (n + 1) with
  | true, true =>
    if twice < den then some n
    else if den < twice then some (n + 1)
    else if n % 2 = 0 then some n else some (n + 1)
  | true, false => some n
  | false, true => some (n + 1)
  | false, false => none

/-- The shortest decimal of a positive finite double: the first of the grids with one, two, up to
seventeen digits that meets the interval. -/
def shortest (mantissa : Nat) (exponent : Int) : Decimal :=
  let i := interval mantissa exponent
  let magnitude := Decimal.magnitude i.value i.den
  let found := (List.range 17).findSome? fun (k : Nat) ↦
    let power := magnitude - (k : Int)
    (i.nearest? power).map fun n ↦ Decimal.ofUnits n power
  found.getD (Decimal.ofUnits 0 0)

end Double
end DicePool
