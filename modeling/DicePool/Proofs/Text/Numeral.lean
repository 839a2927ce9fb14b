import DicePool.Text.Numeral
import Mathlib.Data.List.Basic

/-!
# Reading numerals back

The numeral of a number is made of digits and is read as this number.
-/

namespace DicePool.Numeral

private theorem digit_spec :
    ∀ d < 10, (digit d).isDigit = true ∧ (digit d).toNat - 48 = d := by
  decide

private theorem digits_induction {motive : Nat → Prop} (small : ∀ n < 10, motive n)
    (step : ∀ n, 10 ≤ n → motive (n / 10) → motive n) (n : Nat) : motive n := by
  induction n using Nat.strongRecOn with
  | ind n ih =>
    rcases Nat.lt_or_ge n 10 with lt | ge
    · exact small n lt
    · exact step n ge (ih (n / 10) (by omega))

/-- A numeral has only digits. -/
theorem isDigit_of_mem_digits {n : Nat} {c : Char} (h : c ∈ digits n) : c.isDigit = true := by
  induction n using digits_induction with
  | small n lt =>
    rw [digits_of_lt lt, List.mem_singleton] at h
    rw [h]
    exact (digit_spec n lt).1
  | step n ge ih =>
    rw [digits_of_le ge, List.mem_append, List.mem_singleton] at h
    rcases h with h | rfl
    · exact ih h
    · exact (digit_spec (n % 10) (by omega)).1

/-- A numeral has at least one digit. -/
theorem digits_ne_nil (n : Nat) : digits n ≠ [] := by
  rcases Nat.lt_or_ge n 10 with lt | ge
  · simp [digits_of_lt lt]
  · simp [digits_of_le ge]

/-- A numeral is read as its number. -/
theorem value_digits (n : Nat) : value (digits n) = n := by
  induction n using digits_induction with
  | small n lt =>
    rw [digits_of_lt lt, value, List.foldl_cons, List.foldl_nil, (digit_spec n lt).2]
    omega
  | step n ge ih =>
    rw [value] at ih
    rw [digits_of_le ge, value, List.foldl_append, ih, List.foldl_cons, List.foldl_nil,
      (digit_spec (n % 10) (by omega)).2]
    omega

/-- The text of a natural number is its numeral. -/
@[simp] theorem toList_ofNat (n : Nat) : (ofNat n).toList = digits n := by
  rw [ofNat, String.toList_ofList]

/-- The text of an integer is its numeral, after a minus sign if it is negative. -/
theorem toList_ofInt (x : Int) :
    (ofInt x).toList = (if x < 0 then ['-'] else []) ++ digits x.natAbs := by
  unfold ofInt
  split <;> simp

end DicePool.Numeral
