import DicePool.Text.Numeral

/-!
# Values

Die values and totals are fractions with numerators of 64 bits: arithmetic on them is exact as long
as the numerators fit, and wraps around where they do not. Almost all numbers that can be written
are bounded, so that no total of theirs wraps around. Probabilities are exact and not bounded.
-/

namespace DicePool

/-- The value of a die or of a total, in lowest terms. -/
abbrev Value := Rat

/-- An exact probability mass. -/
abbrev Probability := Rat

/-- The largest number of dice in one expression (`MAX_DICE`). -/
def maxDice : Nat := 200

/-- The largest numeric die (`MAX_SIDES`). -/
def maxSides : Nat := 100

/-- The largest magnitude of a face, a boost, a threshold or a total adjustment (`MAX_LITERAL`). -/
def maxLiteral : Nat := 1000000

namespace Value

/-- A fraction in lowest terms: the numerator alone when the denominator is one. -/
def text (q : Value) : String :=
  if q.den = 1 then Numeral.ofInt q.num
  else Numeral.ofInt q.num ++ "/" ++ Numeral.ofNat q.den

/-- Whether a fraction has denominator one. -/
def isInteger (q : Value) : Bool := q.den == 1

/-- The integer part of a fraction, cut toward zero. -/
def truncate (q : Value) : Int := q.num.tdiv q.den

/-- The integer of 64 bits, the sign included, that an integer wraps around to. -/
def wrap (n : Int) : Int := n.bmod 18446744073709551616

/-- Whether the numerator of a value has 64 bits. -/
def Narrow (v : Value) : Prop := wrap v.num = v.num

instance : DecidablePred Narrow := fun _ ↦ inferInstanceAs (Decidable (_ = _))

/-- A fraction of which the numerator wraps around. The denominators that are read are at most a
million, and so are all that come of them. -/
def wrapped (n : Int) (d : Nat) : Value := mkRat (wrap n) d

/-- Combines the numerators of two values over their least common denominator. -/
def combine (op : Int → Int → Int) (a b : Value) : Value :=
  let d := Nat.lcm a.den b.den
  wrapped (op (a.num * (d / a.den : Nat)) (b.num * (d / b.den : Nat))) d

/-- The sum of two values. -/
def plus : Value → Value → Value := combine (· + ·)

/-- The difference of two values. -/
def minus : Value → Value → Value := combine (· - ·)

/-- The product of two values. -/
def times (a b : Value) : Value := wrapped (a * b).num (a * b).den

/-- The quotient of two values. Nothing that is read divides by zero. -/
def dividedBy (a b : Value) : Value := wrapped (a / b).num (a / b).den

/-- The sum of a list, from the first value on. -/
def sum (values : List Value) : Value := values.foldl plus 0

/-- Values are added as the program adds them. -/
@[reducible] def wrapping : Add Value := ⟨plus⟩

/-- The text of an integer value is its decimal numeral. -/
theorem text_intCast (n : Int) : text (n : Value) = Numeral.ofInt n := by
  simp [text]

end Value
end DicePool
