/-!
# Decimal numerals

Naturals and integers in decimal: digits only, most significant first, no leading zeros, a minus
sign before a negative number. Reading back takes any run of digits, leading zeros included.
-/

namespace DicePool.Numeral

/-- The digit character of a number below ten. -/
def digit (d : Nat) : Char := Char.ofNat (48 + d)

/-- The digits of `n` put before `rest`. -/
def digitsOnto (n : Nat) (rest : List Char) : List Char :=
  if n < 10 then digit n :: rest else digitsOnto (n / 10) (digit (n % 10) :: rest)

/-- The decimal digits of a natural number. -/
def digits (n : Nat) : List Char := digitsOnto n []

/-- The number written by a run of digit characters. -/
def value (cs : List Char) : Nat := cs.foldl (fun n c ↦ 10 * n + (c.toNat - 48)) 0

/-- A natural number in decimal. -/
def ofNat (n : Nat) : String := String.ofList (digits n)

/-- An integer in decimal, a minus sign before a negative one. -/
def ofInt (x : Int) : String :=
  if x < 0 then "-" ++ ofNat x.natAbs else ofNat x.natAbs

/-- An integer in decimal with a sign in every case: zero counts as positive. -/
def signed (x : Int) : String :=
  if x < 0 then "-" ++ ofNat x.natAbs else "+" ++ ofNat x.natAbs

/-- A natural number in lower-case hexadecimal without leading zeros. -/
def hex (n : Nat) : String := String.ofList (Nat.toDigits 16 n)

/-- A number below ten is its digit alone. -/
theorem digits_of_lt {n : Nat} (h : n < 10) : digits n = [digit n] := by
  rw [digits, digitsOnto, if_pos h]

/-- Digits put before a text are the digits followed by that text. -/
theorem digitsOnto_eq (n : Nat) (rest : List Char) : digitsOnto n rest = digits n ++ rest := by
  induction n using Nat.strongRecOn generalizing rest with
  | ind n ih =>
    have step (r : List Char) : digitsOnto n r =
        if n < 10 then digit n :: r else digitsOnto (n / 10) (digit (n % 10) :: r) := by
      rw [digitsOnto]
    rw [digits, step rest, step []]
    split
    · rfl
    · rw [ih (n / 10) (by omega) (_ :: rest), ih (n / 10) (by omega) [_]]
      simp

/-- A number of two digits or more ends in its last digit. -/
theorem digits_of_le {n : Nat} (h : 10 ≤ n) : digits n = digits (n / 10) ++ [digit (n % 10)] := by
  rw [digits, digitsOnto, if_neg (by omega), digitsOnto_eq]

end DicePool.Numeral
