import DicePool.Proofs.Text.Numeral
import DicePool.Proofs.Token.Scan
import Mathlib.Data.List.Chain

/-!
# Written tokens

A text is written token by token. Neighbours whose characters are of different classes stay apart:
they are cut where they were joined. Phrases, which begin with a word or a symbol and end in a
number, can follow each other and anything else that ends in a number or a face list.
-/

namespace DicePool.Token

variable {k : TokenKind} {w : List Char} {ts ts' : List Token}

/-- The class of the characters of a kind; face lists and unrecognized text have none. -/
def charClass (k : TokenKind) : CharClass :=
  if k = .integer then .digit else (k.spelling?.getD "").toList.head?.elim .other classOf

private theorem charClass_of_spelling :
    ∀ p ∈ TokenKind.spellings, ∀ c ∈ p.2.toList, classOf c = charClass p.1 := by
  have table : ∀ p ∈ TokenKind.spellings, p.2.toList.all fun c ↦ classOf c = charClass p.1 := by
    decide
  simpa only [List.all_eq_true, decide_eq_true_eq] using table

/-- Only numbers are of the class of digits. -/
theorem charClass_eq_digit_iff : charClass k = .digit ↔ k = .integer := by
  cases k <;> decide

/-- The characters of a number or of a word are of the class of its kind. -/
theorem Form.classOf_eq (h : Form k w) (hk : k ≠ .faceList) {c : Char} (hc : c ∈ w) :
    classOf c = charClass k := by
  cases h with
  | integer _ digits => exact classOf_eq_digit_iff.mpr (digits c hc)
  | faceList => contradiction
  | spelled mem => exact charClass_of_spelling _ mem c hc

/-- Every form begins with a character of the class of its kind. -/
theorem Form.classOf_head?_eq (h : Form k w) {c : Char} (hc : c ∈ w.head?) :
    classOf c = charClass k := by
  by_cases hk : k = .faceList
  · subst hk
    obtain ⟨inner, _, rfl⟩ := h.exists_body
    obtain rfl := Option.some.inj hc
    decide
  · exact h.classOf_eq hk (List.mem_of_mem_head? hc)

/-- Whether a token stays apart from the one after it. -/
def Apart (t t' : Token) : Prop := t.kind ≠ .faceList → charClass t'.kind ≠ charClass t.kind

/-- A token is cut off before one that it stays apart from. -/
theorem Apart.piece {t t' : Token} (h : Apart t t') (form : Form t.kind t.text)
    (form' : Form t'.kind t'.text) (s : List Char) : Piece t.kind t.text (t'.text ++ s) := by
  refine form.piece fun hk c hc d hd ↦ ?_
  obtain ⟨c', rest, same⟩ := List.exists_cons_of_ne_nil form'.ne_nil
  have first : c ∈ t'.text.head? := by
    rw [same] at hc ⊢
    exact hc
  rw [form.classOf_eq hk hd, form'.classOf_head?_eq first]
  exact h hk

/-- Tokens that stay apart are pieces before a text that cuts off the last of them. -/
theorem pieces_of_isChain {s : List Char} (form : ∀ t ∈ ts, Form t.kind t.text)
    (apart : ts.IsChain Apart) (last : ∀ t ∈ ts.getLast?, Piece t.kind t.text s) :
    Pieces s ts := by
  induction ts with
  | nil => trivial
  | cons t ts ih =>
    rw [List.forall_mem_cons] at form
    cases ts with
    | nil => exact ⟨last t rfl, trivial⟩
    | cons t' ts =>
      refine ⟨?_, ih form.2 apart.of_cons fun t ht ↦ last t (by simpa using ht)⟩
      rw [List.flatMap_cons, List.append_assoc]
      exact (List.isChain_cons_cons.mp apart).1.piece form.1 (form.2 t' List.mem_cons_self) _

/-- Whether tokens stay apart, begin with a word or a symbol and end in a number. -/
structure Phrase (ts : List Token) : Prop where
  form : ∀ t ∈ ts, Form t.kind t.text
  apart : ts.IsChain Apart
  first : ∀ t ∈ ts.head?, t.kind ≠ .integer
  last : ∀ t ∈ ts.getLast?, t.kind = .integer

namespace Phrase

/-- No tokens are a phrase. -/
theorem nil : Phrase [] := ⟨by simp, .nil, by simp, by simp⟩

/-- A phrase stays apart from tokens that end in a number or a face list. -/
theorem isChain_append (h : Phrase ts') (apart : ts.IsChain Apart)
    (last : ∀ t ∈ ts.getLast?, t.kind = .integer ∨ t.kind = .faceList) :
    (ts ++ ts').IsChain Apart := by
  refine List.isChain_append.mpr ⟨apart, h.apart, fun t ht t' ht' hk ↦ ?_⟩
  have number := (last t ht).resolve_right hk
  rw [charClass_eq_digit_iff.mpr number, Ne, charClass_eq_digit_iff]
  exact h.first t' ht'

/-- Phrases follow each other. -/
theorem append (h : Phrase ts) (h' : Phrase ts') : Phrase (ts ++ ts') where
  form := List.forall_mem_append.mpr ⟨h.form, h'.form⟩
  apart := h'.isChain_append h.apart fun t ht ↦ .inl (h.last t ht)
  first := by
    cases ts with
    | nil => exact h'.first
    | cons t ts => exact h.first
  last := by
    intro t ht
    rw [List.getLast?_append] at ht
    rcases Option.or_eq_some_iff.mp ht with ht | ⟨_, ht⟩
    · exact h'.last t ht
    · exact h.last t ht

/-- Any number of phrases follow each other. -/
theorem flatMap {α : Type} {f : α → List Token} {xs : List α} (h : ∀ x ∈ xs, Phrase (f x)) :
    Phrase (xs.flatMap f) := by
  induction xs with
  | nil => exact nil
  | cons x xs ih =>
    rw [List.forall_mem_cons] at h
    exact h.1.append (ih h.2)

end Phrase

/-- A word or symbol, by its kind. -/
def word (k : TokenKind) : Token := ⟨k, ⟨0, 0⟩, (k.spelling?.getD "").toList⟩

/-- A number by its decimal numeral. -/
def numeral (n : Nat) : Token := ⟨.integer, ⟨0, 0⟩, Numeral.digits n⟩

/-- A word is of its kind. -/
@[simp] theorem kind_word (k : TokenKind) : (word k).kind = k := rfl

/-- A numeral is an integer. -/
@[simp] theorem kind_numeral (n : Nat) : (numeral n).kind = .integer := by rw [numeral]

/-- A numeral is read as its number. -/
@[simp] theorem number_numeral (n : Nat) : (numeral n).number = n := Numeral.value_digits n

/-- A numeral has the form of an integer. -/
theorem form_numeral (n : Nat) : Form (numeral n).kind (numeral n).text :=
  .integer (Numeral.digits_ne_nil n) fun _ hc ↦ Numeral.isDigit_of_mem_digits hc

/-- A word has the form of its kind. -/
theorem form_word (h : k.spelling?.isSome = true) : Form (word k).kind (word k).text := by
  have mem : (k, k.spelling?.getD "") ∈ TokenKind.spellings := by
    revert h
    cases k <;> decide
  exact .spelled mem

private theorem kind_ne_integer (h : k.spelling?.isSome = true) : k ≠ .integer := by
  rintro rfl
  contradiction

private theorem apart_numeral (h : k.spelling?.isSome = true) (n : Nat) :
    Apart (word k) (numeral n) := fun _ same ↦
  kind_ne_integer h (charClass_eq_digit_iff.mp same.symm)

/-- A word before a number is a phrase. -/
theorem phrase_word_numeral (h : k.spelling?.isSome = true) (n : Nat) :
    Phrase [word k, numeral n] where
  form := by simpa using ⟨form_word h, form_numeral n⟩
  apart := by simpa using apart_numeral h n
  first := by simpa using kind_ne_integer h
  last := by simp

/-- Letters before a symbol and a number are a phrase. -/
theorem phrase_word_word_numeral {k' : TokenKind} (h : k.spelling?.isSome = true)
    (h' : k'.spelling?.isSome = true) (hk : charClass k' ≠ charClass k) (n : Nat) :
    Phrase [word k, word k', numeral n] where
  form := by simpa using ⟨form_word h, form_word h', form_numeral n⟩
  apart := by simpa using ⟨fun _ ↦ hk, apart_numeral h' n⟩
  first := by simpa using kind_ne_integer h
  last := by simp

/-- A row is cut into pieces where both parts are, the first before the text of the second. -/
theorem pieces_append {s : List Char} :
    Pieces s (ts ++ ts') ↔ Pieces (ts'.flatMap text ++ s) ts ∧ Pieces s ts' := by
  induction ts with
  | nil => simp [Pieces]
  | cons t ts ih => simp [Pieces, ih, and_assoc]

/-- Whether no digit is the first character of a text. -/
def NoDigitFirst (s : List Char) : Prop := ∀ c ∈ s.head?, c.isDigit = false

/-- Whether the text of a row does not begin with a digit, and the tokens are its pieces before
anything that does not begin with a digit either. -/
structure Sealed (ts : List Token) : Prop where
  first : NoDigitFirst (ts.flatMap text)
  pieces : ∀ s, NoDigitFirst s → Pieces s ts

namespace Sealed

/-- Only numbers begin with a digit. -/
private theorem noDigitFirst_of_form {w : List Char} (h : Form k w) (hk : k ≠ .integer)
    (s : List Char) : NoDigitFirst (w ++ s) := by
  obtain ⟨c, rest, rfl⟩ := List.exists_cons_of_ne_nil h.ne_nil
  intro d hd
  obtain rfl : c = d := Option.some.inj hd
  rw [← Bool.not_eq_true, ← classOf_eq_digit_iff, ← h.kind_eq_integer_iff]
  exact hk

private theorem noDigitFirst_append {s s' : List Char} (h : NoDigitFirst s)
    (h' : NoDigitFirst s') : NoDigitFirst (s ++ s') := by
  cases s with
  | nil => exact h'
  | cons c s => exact h

/-- No tokens are sealed. -/
theorem nil : Sealed [] := ⟨by simp [NoDigitFirst], fun _ _ ↦ trivial⟩

/-- Sealed rows follow each other. -/
theorem append (h : Sealed ts) (h' : Sealed ts') : Sealed (ts ++ ts') where
  first := by
    rw [List.flatMap_append]
    exact noDigitFirst_append h.first h'.first
  pieces s hs := pieces_append.mpr
    ⟨h.pieces _ (noDigitFirst_append h'.first hs), h'.pieces s hs⟩

/-- Any number of sealed rows follow each other. -/
theorem flatMap {α : Type} {f : α → List Token} {xs : List α} (h : ∀ x ∈ xs, Sealed (f x)) :
    Sealed (xs.flatMap f) := by
  induction xs with
  | nil => exact nil
  | cons x xs ih =>
    rw [List.forall_mem_cons] at h
    exact h.1.append (ih h.2)

/-- A word goes before a sealed row where it is cut off. -/
theorem cons_word (h : Sealed ts) (spelled : k.spelling?.isSome = true)
    (cut : ∀ s, Piece k (word k).text (ts.flatMap text ++ s)) : Sealed (word k :: ts) where
  first := noDigitFirst_of_form (form_word spelled) (kind_ne_integer spelled) _
  pieces s hs := ⟨cut s, h.pieces s hs⟩

end Sealed

/-- A phrase is sealed. -/
theorem Phrase.sealed (h : Phrase ts) : Sealed ts where
  first := by
    cases ts with
    | nil => exact Sealed.nil.first
    | cons t ts =>
      exact Sealed.noDigitFirst_of_form (h.form t List.mem_cons_self) (h.first t rfl) _
  pieces s hs := by
    apply pieces_of_isChain h.form h.apart
    intro t ht
    have form := h.form t (List.mem_of_getLast? ht)
    rw [h.last t ht] at form ⊢
    exact .of_digits form.ne_nil (fun _ hc ↦ form.isDigit_of_mem hc) hs

end DicePool.Token
