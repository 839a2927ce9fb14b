import DicePool.Double.Layout
import DicePool.Json
import DicePool.Proofs.Text.Numeral
import DicePool.Text.Quoted

/-!
# Texts on one line

Quoted texts and JSON values are written without line feeds and carriage returns, whatever
they hold: quotes escape both, and so do the strings of a JSON value.
-/

namespace DicePool

namespace Text

/-- Whether a text has no line feed and no carriage return. -/
def OneLine (cs : List Char) : Prop := ∀ c ∈ cs, c ≠ '\n' ∧ c ≠ '\r'

-- over the characters of the text: over all characters each code point would be tried
instance (cs : List Char) : Decidable (OneLine cs) :=
  List.decidableBAll (fun c ↦ c ≠ '\n' ∧ c ≠ '\r') cs

variable {cs ds : List Char} {c : Char}

/-- The empty text is on one line. -/
@[simp] theorem oneLine_nil : OneLine [] := by simp [OneLine]

/-- A text is on one line if its first character and the rest are. -/
@[simp] theorem oneLine_cons : OneLine (c :: cs) ↔ (c ≠ '\n' ∧ c ≠ '\r') ∧ OneLine cs :=
  List.forall_mem_cons

/-- A text is on one line if its parts are. -/
@[simp] theorem oneLine_append : OneLine (cs ++ ds) ↔ OneLine cs ∧ OneLine ds :=
  List.forall_mem_append

/-- A part of a text on one line is on one line. -/
theorem OneLine.of_subset (h : OneLine ds) (sub : cs ⊆ ds) : OneLine cs := fun c hc ↦ h c (sub hc)

/-- A row of texts is on one line if each of them is. -/
theorem oneLine_flatMap {α : Type} {xs : List α} {f : α → List Char}
    (h : ∀ x ∈ xs, OneLine (f x)) : OneLine (xs.flatMap f) := by
  intro c hc
  obtain ⟨x, hx, hc⟩ := List.mem_flatMap.mp hc
  exact h x hx c hc

/-- Digits are on one line. -/
theorem oneLine_of_isDigit (h : ∀ c ∈ cs, c.isDigit = true) : OneLine cs := by
  intro c hc
  have digit := h c hc
  constructor <;> rintro rfl <;> contradiction

end Text

open Text

/-- The numeral of a natural number is on one line. -/
@[simp] theorem Numeral.oneLine_digits (n : Nat) : OneLine (digits n) :=
  oneLine_of_isDigit fun _ ↦ isDigit_of_mem_digits

private theorem Numeral.oneLine_hex (n : Nat) : OneLine (hex n).toList := by
  rw [hex, String.toList_ofList]
  induction n using Nat.strongRecOn with
  | ind n ih =>
    rcases Nat.lt_or_ge n 16 with lt | ge
    · simp [Nat.toDigits_of_lt_base lt]
    · simp [Nat.toDigits_of_base_le (by decide) ge, ih (n / 16) (by omega)]

private theorem Decimal.isDigit_ofUnits (n : Nat) (power : Int) :
    ∀ c ∈ (ofUnits n power).digits, c.isDigit = true := by
  intro c hc
  have kept := (List.dropWhile_suffix _).subset (List.mem_reverse.mp hc)
  exact Numeral.isDigit_of_mem_digits (List.mem_reverse.mp kept)

/-- The shortest decimal of a double has only digits. -/
theorem Double.isDigit_shortest (mantissa : Nat) (exponent : Int) :
    ∀ c ∈ (shortest mantissa exponent).digits, c.isDigit = true := by
  unfold shortest
  dsimp only
  generalize found : List.findSome? _ _ = d?
  cases d? with
  | none => exact Decimal.isDigit_ofUnits 0 0
  | some d =>
    obtain ⟨k, _, units⟩ := List.exists_of_findSome?_eq_some found
    obtain ⟨n, _, rfl⟩ := Option.map_eq_some_iff.mp units
    exact Decimal.isDigit_ofUnits n _

namespace NumberLayout

variable {layout : NumberLayout} {d : Decimal}

private theorem oneLine_plain (h : OneLine d.digits) : OneLine (plain d) := by
  have zeros (n : Nat) : OneLine (List.replicate n '0') :=
    fun c hc ↦ List.eq_of_mem_replicate hc ▸ by decide
  have whole (n : Nat) : OneLine (d.digits.take n) := h.of_subset (List.take_subset n _)
  have fraction (n : Nat) : OneLine (d.digits.drop n) := h.of_subset (List.drop_subset n _)
  unfold plain
  split
  · simp [zeros, h]
  · dsimp only
    split <;> simp [zeros, whole, fraction]

private theorem oneLine_scientific (h : OneLine d.digits) (plus : OneLine layout.plus.toList) :
    OneLine (layout.scientific d) := by
  have whole (n : Nat) : OneLine (d.digits.take n) := h.of_subset (List.take_subset n _)
  have fraction : OneLine d.digits.tail := h.of_subset (List.tail_sublist _).subset
  unfold scientific
  dsimp only
  split <;> split <;> simp [whole, fraction, plus]

/-- A double is on one line if the sign of its exponent is. -/
theorem oneLine_text? (plus : OneLine layout.plus.toList) {x : Double} {s : String}
    (h : layout.text? x = some s) : OneLine s.toList := by
  cases x with
  | finite negative mantissa exponent =>
    have digits := oneLine_of_isDigit (Double.isDigit_shortest mantissa exponent)
    have decimal : OneLine (layout.decimal (Double.shortest mantissa exponent)) := by
      unfold decimal
      split
      · exact oneLine_plain digits
      · exact oneLine_scientific digits plus
    obtain rfl := (Option.some.inj h).symm
    rw [String.toList_ofList]
    split <;> split <;> simp [decimal]
  | infinite | nan => contradiction

end NumberLayout

/-- A quoted text is on one line, whatever it quotes. -/
@[simp] theorem Text.oneLine_quoted (s : String) : OneLine (quoted s).toList := by
  have each (c : Char) : OneLine (quotedChar c) := by
    unfold quotedChar
    split
    case h_7 quote slash tab feed carriage null =>
      have plain : c ≠ '\n' ∧ c ≠ '\r' := ⟨feed, carriage⟩
      split <;> simp [plain, Numeral.oneLine_hex]
    all_goals decide
  simp [quoted, oneLine_flatMap fun c _ ↦ each c]

namespace Json

/-- The text of a string is on one line, whatever the string holds. -/
@[simp] theorem oneLine_escaped (s : String) : OneLine (escaped s) := by
  have each (c : Char) : OneLine (escapedChar c) := by
    unfold escapedChar
    split
    case h_8 quote slash backspace tab feed form carriage =>
      have plain : c ≠ '\n' ∧ c ≠ '\r' := ⟨feed, carriage⟩
      split <;> simp [plain]
    all_goals decide
  simp [escaped, oneLine_flatMap fun c _ ↦ each c]

/-- Whether the numbers in a value are written on one line. -/
inductive Plain : Json → Prop
  | null : Plain null
  | bool (b : Bool) : Plain (bool b)
  | number {text : String} (line : OneLine text.toList) : Plain (number text)
  | string (s : String) : Plain (string s)
  | array {items : List Json} (each : ∀ item ∈ items, Plain item) : Plain (array items)
  | object {fields : List (String × Json)} (each : ∀ f ∈ fields, Plain f.2) : Plain (object fields)

private theorem oneLine_writeItems {items : List Json} (h : ∀ item ∈ items, OneLine item.write) :
    OneLine (writeItems items) := by
  match items with
  | [] => simp [writeItems]
  | [item] => simpa [writeItems] using h
  | item :: next :: rest =>
    rw [List.forall_mem_cons] at h
    simp [writeItems, h.1, oneLine_writeItems h.2]

private theorem oneLine_writeFields {fields : List (String × Json)}
    (h : ∀ f ∈ fields, OneLine f.2.write) : OneLine (writeFields fields) := by
  match fields with
  | [] => simp [writeFields]
  | [(name, value)] => simpa [writeFields] using h
  | (name, value) :: next :: rest =>
    rw [List.forall_mem_cons] at h
    simp [writeFields, h.1, oneLine_writeFields h.2]

/-- A value is written on one line if its numbers are. -/
theorem Plain.oneLine_write {j : Json} (h : j.Plain) : OneLine j.write := by
  induction h with
  | null => decide
  | bool b => cases b <;> decide
  | number line => exact line
  | string s => exact oneLine_escaped s
  | array _ ih => simp [write, oneLine_writeItems ih]
  | object _ ih => simp [write, oneLine_writeFields ih]

end Json

end DicePool
