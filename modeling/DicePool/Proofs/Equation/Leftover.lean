import DicePool.Equation.Substitution
import DicePool.Proofs.Equation.Terms
import DicePool.Proofs.Roll.Nested
import DicePool.Proofs.Token.Mark
import DicePool.Roller.Source

/-!
# Dice left over by a substitution

A total is written between the text before its term and the text after it. Where the text after a
term begins with `d` and sides, which the term has not taken, a total that is a natural number is
read as their count; nowhere else does a substitution leave dice behind.
-/

namespace DicePool.Equation

open Token Expression Rolling

/-- Whether sides touch what stands before them. -/
def StartsSides : List Mark → Prop
  | [] => False
  | m :: _ => m.touches = true ∧ (m.kind = .integer ∨ m.kind = .faceList)

/-- Whether `d` and sides touch what stands before them. -/
def StartsDice : List Mark → Prop
  | [] => False
  | m :: ms => m.touches = true ∧ m.kind = .dice ∧ StartsSides ms

/-- Whether a count, `d` and sides stand somewhere without gaps. -/
def HoldsDice : List Mark → Prop := Somewhere fun m ms ↦ m.kind = .integer ∧ StartsDice ms

private theorem startsTerm_iff {t : Token} {ts : List Token} :
    startsTerm (t :: ts) = true ↔ t.kind = .integer ∧ StartsDice (marks t.span.stop ts) := by
  match ts with
  | [] | [_] => simp [startsTerm, marks, StartsDice, StartsSides]
  | d :: s :: ts =>
    simp only [startsTerm, adjacent, marks, StartsDice, StartsSides, Bool.and_eq_true,
      Bool.or_eq_true, decide_eq_true_eq]
    constructor
    · rintro ⟨⟨⟨⟨count, dice⟩, sides⟩, nd⟩, ds⟩
      exact ⟨count, nd.symm, dice, ds.symm, sides⟩
    · rintro ⟨count, nd, dice, ds, sides⟩
      exact ⟨⟨⟨⟨count, dice⟩, sides⟩, nd.symm⟩, ds.symm⟩

private theorem termsFrom_eq_nil_iff {stop : Nat} (o : Nat) {ts : List Token} :
    termsFrom stop 0 ts = .ok [] ↔ ¬HoldsDice (marks o ts) := by
  induction ts generalizing o with
  | nil => simp [termsFrom, marks, HoldsDice, Somewhere]
  | cons t ts ih =>
    rw [termsFrom, marks, HoldsDice, Somewhere, ← startsTerm_iff]
    split
    · next starts =>
      constructor
      · intro h
        obtain ⟨⟨found, used⟩, _, h⟩ := bind_eq_ok.mp h
        obtain ⟨_, _, h⟩ := bind_eq_ok.mp h
        cases h
      · exact fun none ↦ absurd (.inl starts) none
    · next starts =>
      rw [ih t.span.stop]
      simp [starts, HoldsDice]

/-- A text has no terms exactly if no count, `d` and sides stand in it without gaps. -/
theorem terms_eq_nil_iff {text : String} :
    terms text = .ok [] ↔ ¬HoldsDice (marksOf text.toList) := termsFrom_eq_nil_iff 0

private theorem startsSides_append {before s : List Char}
    (blank : ∀ c ∈ before, isSeparator c = true) :
    StartsSides (marksOf (before ++ s)) ↔ before = [] ∧ StartsSides (marksOf s) := by
  by_cases ne : before = []
  · simp [ne]
  · rw [marksOf_append blank ne]
    cases marksOf s <;> simp [StartsSides, ne]

private theorem startsDice_append {before s : List Char}
    (blank : ∀ c ∈ before, isSeparator c = true) :
    StartsDice (marksOf (before ++ s)) ↔ before = [] ∧ StartsDice (marksOf s) := by
  by_cases ne : before = []
  · simp [ne]
  · rw [marksOf_append blank ne]
    cases marksOf s <;> simp [StartsDice, ne]

private theorem holdsDice_append {before s : List Char}
    (blank : ∀ c ∈ before, isSeparator c = true) :
    HoldsDice (marksOf (before ++ s)) ↔ HoldsDice (marksOf s) := by
  by_cases ne : before = []
  · rw [ne, List.nil_append]
  · rw [marksOf_append blank ne]
    cases marksOf s <;> rfl

/-- Whether a total is a natural number. -/
def Whole (v : Value) : Prop := ∃ n : Nat, v = n

/-- What the marks of a text show of a total at its start, which is a number by itself or not: it
is seen by no piece before it, it can be sides but not `d`, and it is a count of what follows. -/
structure WrittenTotal (w : List Char) (bare : Prop) : Prop where
  first : ∃ b ∈ w.head?, classOf b = .digit ∨ classOf b = .other
  sides : ∀ s, StartsSides (marksOf (w ++ s)) ↔ bare
  dice : ∀ s, ¬StartsDice (marksOf (w ++ s))
  holds : ∀ s, HoldsDice (marksOf (w ++ s)) ↔
    bare ∧ StartsDice (marksOf s) ∨ HoldsDice (marksOf s)

private theorem writtenTotal_digits {w : List Char} (ne : w ≠ [])
    (digits : ∀ c ∈ w, c.isDigit = true) : WrittenTotal w True := by
  refine ⟨?_, fun s ↦ ?_, fun s ↦ ?_, fun s ↦ ?_⟩
  · obtain ⟨c, w, rfl⟩ := List.exists_cons_of_ne_nil ne
    exact ⟨c, rfl, .inl (classOf_eq_digit_iff.mpr (digits c List.mem_cons_self))⟩
  · rcases marksOf_digits (s := s) ne digits with ⟨same, _⟩ | ⟨m, ms, _, same⟩ <;>
      simp [same, StartsSides]
  · rcases marksOf_digits (s := s) ne digits with ⟨same, _⟩ | ⟨m, ms, _, same⟩ <;>
      simp [same, StartsDice]
  · rcases marksOf_digits (s := s) ne digits with ⟨same, _⟩ | ⟨m, ms, after, same⟩
    · simp [same, HoldsDice, Somewhere]
    · -- the digits that follow are part of the number, with the same marks behind it
      simp [same, after, HoldsDice, Somewhere, StartsDice]

/-- Whether a text begins without `d` and shows the same dice as a text that it ends in. -/
private def Inert (x s : List Char) : Prop :=
  ¬StartsDice (marksOf x) ∧ (HoldsDice (marksOf x) ↔ HoldsDice (marksOf s))

private theorem inert_append {k : TokenKind} {p x s : List Char} (piece : Piece k p x)
    (hk : k ≠ .dice) (hi : k = .integer → ¬StartsDice (marksOf x))
    (h : HoldsDice (marksOf x) ↔ HoldsDice (marksOf s)) : Inert (p ++ x) s := by
  rw [Inert, marksOf_append_piece piece]
  constructor
  · simp [StartsDice, hk]
  · rw [← h]
    simp only [HoldsDice, Somewhere, or_iff_right_iff_imp]
    rintro ⟨integer, dice⟩
    exact absurd dice (hi integer)

private theorem inert_digits {x s : List Char} (h : Inert x s)
    (hx : ∀ c ∈ x.head?, c.isDigit = false) (n : Nat) : Inert (Numeral.digits n ++ x) s :=
  have number : Piece .integer (Numeral.digits n) x :=
    .of_digits (Numeral.digits_ne_nil n) (fun _ hc ↦ Numeral.isDigit_of_mem_digits hc) hx
  inert_append number (by decide) (fun _ ↦ h.1) h.2

private theorem piece_symbol {k : TokenKind} {c : Char} {x : List Char} (form : Form k [c])
    (symbol : classOf c = .symbol) (n : Nat) : Piece k [c] (Numeral.digits n ++ x) := by
  refine form.piece fun _ d hd c' hc' ↦ ?_
  obtain ⟨d', rest, same⟩ := List.exists_cons_of_ne_nil (Numeral.digits_ne_nil n)
  rw [same] at hd
  obtain rfl := Option.some.inj hd
  have digit : d'.isDigit = true := Numeral.isDigit_of_mem_digits (same ▸ List.mem_cons_self)
  rw [List.mem_singleton.mp hc', symbol, classOf_eq_digit_iff.mpr digit]
  decide

private theorem writtenTotal_enclosed {sign part : List Char} (n : Nat)
    (hs : sign = [] ∨ sign = ['-']) (hp : part = [] ∨ ∃ m, part = ['/'] ++ Numeral.digits m) :
    WrittenTotal ('(' :: (sign ++ Numeral.digits n ++ part ++ [')'])) False := by
  have close (s : List Char) : Inert ([')'] ++ s) s :=
    inert_append (.of_other (by decide) (by decide) (by decide)) (by decide) (by simp) Iff.rfl
  have fraction (s : List Char) : Inert (part ++ ([')'] ++ s)) s ∧
      ∀ c ∈ (part ++ ([')'] ++ s)).head?, c.isDigit = false := by
    rcases hp with rfl | ⟨m, rfl⟩
    · exact ⟨close s, by simp⟩
    · have denominator := inert_digits (close s) (by simp) m
      have slash : Form .slash ['/'] := .spelled (s := "/") (by decide)
      rw [List.append_assoc]
      exact ⟨inert_append (piece_symbol slash (by decide) m) (by decide) (by simp) denominator.2,
        by simp⟩
  have number (s : List Char) : Inert (sign ++ (Numeral.digits n ++ (part ++ ([')'] ++ s)))) s := by
    obtain ⟨rest, other⟩ := fraction s
    have numerator := inert_digits rest other n
    rcases hs with rfl | rfl
    · exact numerator
    · have minus : Form .minus ['-'] := .spelled (s := "-") (by decide)
      exact inert_append (piece_symbol minus (by decide) n) (by decide) (by simp) numerator.2
  have shape (s : List Char) : '(' :: (sign ++ Numeral.digits n ++ part ++ [')']) ++ s =
      ['('] ++ (sign ++ (Numeral.digits n ++ (part ++ ([')'] ++ s)))) := by simp
  have openParen (x : List Char) : Piece .unrecognized ['('] x :=
    .of_other (by decide) (by decide) (by decide)
  refine ⟨⟨'(', rfl, .inr (by decide)⟩, fun s ↦ ?_, fun s ↦ ?_, fun s ↦ ?_⟩
  · rw [shape, marksOf_append_piece (openParen _)]
    simp [StartsSides]
  · rw [shape]
    exact (inert_append (openParen _) (by decide) (by simp) (number s).2).1
  · rw [shape]
    have same := (inert_append (openParen _) (by decide) (by simp) (number s).2).2
    simpa using same

private theorem toList_totalText_natCast (n : Nat) :
    (totalText (n : Value)).toList = Numeral.digits n := by
  have pos : ¬(n : Value) < 0 := not_lt.mpr Rat.natCast_nonneg
  rw [totalText, if_neg (by simp [pos, Value.isInteger]), toList_text_natCast]

private theorem toList_totalText {v : Value} (h : ¬Whole v) :
    ∃ sign n part, (totalText v).toList = '(' :: (sign ++ Numeral.digits n ++ part ++ [')']) ∧
      (sign = [] ∨ sign = ['-']) ∧ (part = [] ∨ ∃ m, part = ['/'] ++ Numeral.digits m) := by
  have enclosed : (v < 0 || !Value.isInteger v) = true := by
    by_contra plain
    obtain ⟨pos, one⟩ : 0 ≤ v ∧ v.den = 1 := by simpa [Value.isInteger] using plain
    refine h ⟨v.num.toNat, ?_⟩
    have num : ((v.num.toNat : Int) : Value) = v := by
      rw [Int.toNat_of_nonneg (Rat.num_nonneg.mpr pos), Rat.coe_int_num_of_den_eq_one one]
    exact num.symm
  have sign : (if v.num < 0 then ['-'] else []) = [] ∨
      (if v.num < 0 then ['-'] else []) = ['-'] := by
    split <;> simp
  refine ⟨if v.num < 0 then ['-'] else [], v.num.natAbs,
    if v.den = 1 then [] else ['/'] ++ Numeral.digits v.den, ?_, sign, ?_⟩
  · rw [totalText, if_pos enclosed, Value.text]
    split <;> simp [Numeral.toList_ofInt]
  · split
    · exact .inl rfl
    · exact .inr ⟨_, rfl⟩

/-- A total is a number by itself if it is a natural number, and in parentheses else. -/
theorem writtenTotal_totalText (v : Value) : WrittenTotal (totalText v).toList (Whole v) := by
  by_cases whole : Whole v
  · rw [eq_true whole]
    obtain ⟨n, rfl⟩ := whole
    rw [toList_totalText_natCast]
    exact writtenTotal_digits (Numeral.digits_ne_nil n) fun _ hc ↦ Numeral.isDigit_of_mem_digits hc
  · obtain ⟨sign, n, part, text, hs, hp⟩ := toList_totalText whole
    rw [text, eq_false whole]
    exact writtenTotal_enclosed n hs hp

/-- Whether no term begins at a position, unless its total is a natural number. -/
def StaysNumber (rolls : List (Term × Scored)) (p : Nat) : Prop :=
  ∀ x ∈ rolls, x.1.span.start = p → Whole x.2.total

/-- Whether sides stand at a position where tokens begin, and still do when the terms are rolled. -/
def SidesAt (rolls : List (Term × Scored)) (p : Nat) : List Token → Prop
  | [] => False
  | s :: _ => s.span.start = p ∧ (s.kind = .integer ∨ s.kind = .faceList) ∧ StaysNumber rolls p

/-- Whether `d` and sides stand at a position where tokens begin. -/
def DiceAt (rolls : List (Term × Scored)) (p : Nat) : List Token → Prop
  | [] => False
  | d :: ts => d.span.start = p ∧ d.kind = .dice ∧ SidesAt rolls d.span.stop ts

/-- Whether `d` and sides, which a term has not taken, stand right after it. -/
def CountsDice (text : String) (rolls : List (Term × Scored)) (t : Term) : Prop :=
  DiceAt rolls t.span.stop ((scan text.toList).dropWhile fun x ↦ x.span.start < t.span.stop)

variable {rolls news : List (Term × Scored)} {o p : Nat} {ts : List Token} {s s' : List Char}

private theorem startsDice_of_diceAt (h : DiceAt rolls p ts) : StartsDice (marks p ts) := by
  match ts with
  | [] | [_] => simp [DiceAt, SidesAt] at h
  | d :: x :: ts =>
    obtain ⟨start, dice, start', sides, _⟩ := h
    simp [marks, StartsDice, StartsSides, start, dice, start', sides]

/-- What a rewritten text shows of dice, by the tokens of the text before. -/
private structure Shows (rolls : List (Term × Scored)) (o : Nat) (ts : List Token)
    (s s' : List Char) (leftover : Prop) : Prop where
  unseen : Unseen s s'
  sides : StartsSides (marksOf s') ↔ SidesAt rolls o ts
  dice : StartsDice (marksOf s') ↔ DiceAt rolls o ts
  holds : HoldsDice (marksOf s') ↔ leftover

/-- A token outside all terms shows what the tokens after it show. -/
private theorem Shows.skip {t : Token} {before : List Char} {leftover : Prop}
    (h : Shows rolls t.span.stop ts s s' leftover) (no : ¬startsTerm (t :: ts) = true)
    (blank : ∀ c ∈ before, isSeparator c = true) (piece : Piece t.kind t.text s)
    (start : t.span.start = o + Text.byteLength before)
    (free : ∀ x ∈ rolls, x.1.span.start ≠ o) :
    Shows rolls o (t :: ts) (before ++ (t.text ++ s)) (before ++ (t.text ++ s')) leftover := by
  obtain ⟨piece', shares⟩ := h.unseen _ _ piece
  have touches : t.span.start = o ↔ before = [] := by
    rw [start, ← Text.byteLength_eq_zero_iff]
    omega
  have stays : StaysNumber rolls o := fun x hx same ↦ absurd same (free x hx)
  refine ⟨(shares.append_left before).unseen, ?_, ?_, ?_⟩
  · rw [marksOf_piece blank piece']
    simp [StartsSides, SidesAt, touches, stays]
  · rw [marksOf_piece blank piece']
    simp [StartsDice, DiceAt, touches, h.sides]
  · rw [marksOf_piece blank piece', ← h.holds]
    simp only [HoldsDice, Somewhere, or_iff_right_iff_imp]
    rintro ⟨count, dice⟩
    exact absurd (startsTerm_iff.mpr ⟨count, startsDice_of_diceAt (h.dice.mp dice)⟩) no

/-- A total in the place of a term is a count of dice right after it if it is a number by itself. -/
private theorem Shows.take {n : Token} {rest : List Token} {before w : List Char} {a : Char}
    {old : List Char} {stop : Nat} {bare leftover : Prop}
    (h : Shows rolls stop ts s s' leftover) (total : WrittenTotal w bare)
    (blank : ∀ c ∈ before, isSeparator c = true) (count : n.kind = .integer)
    (digit : a.isDigit = true) (start : n.span.start = o + Text.byteLength before)
    (stays : before = [] → (StaysNumber rolls o ↔ bare)) :
    Shows rolls o (n :: rest) (before ++ (a :: old ++ s)) (before ++ (w ++ s'))
      (bare ∧ DiceAt rolls stop ts ∨ leftover) := by
  have touches : n.span.start = o ↔ before = [] := by
    rw [start, ← Text.byteLength_eq_zero_iff]
    omega
  obtain ⟨b, hb, other⟩ := total.first
  obtain ⟨w', rfl⟩ := List.head?_eq_some_iff.mp hb
  refine ⟨unseen_append_of_digit blank digit other, ?_, ?_, ?_⟩
  · rw [startsSides_append blank, total.sides]
    simp only [SidesAt, touches, count, true_or, true_and]
    exact and_congr_right fun empty ↦ (stays empty).symm
  · rw [startsDice_append blank]
    constructor
    · rintro ⟨_, dice⟩
      exact absurd dice (total.dice s')
    · rintro ⟨_, dice, _⟩
      rw [count] at dice
      contradiction
  · rw [holdsDice_append blank, total.holds, h.dice, h.holds]

/-- The edits that write totals in the places of their terms. -/
def totalEdits (news : List (Term × Scored)) : List (Span × List Char) :=
  news.map fun r ↦ (r.1.span, (totalText r.2.total).toList)

/-- Terms are found where their tokens stand. -/
private theorem start_of_finds {found : List Term} (h : Finds ts found)
    (scanned : scanFrom 0 o s = ts) :
    ∀ t ∈ found, o ≤ t.span.start ∧ t.span.start ≤ t.span.stop := by
  intro t ht
  obtain ⟨before, used, left, more, rfl, _, m⟩ := h.exists_match ht
  have bounds := (span_of_mem_scanFrom scanned).1
  have extent : ∀ x ∈ used, x.span.start < x.span.stop := fun x hx ↦ (bounds x (by simp [hx])).2
  obtain ⟨first, hf, start⟩ := m.exists_first
  have le := (bounds first (by simp [hf])).1
  exact ⟨start ▸ le, (m.gapless.bounds extent).1⟩

private theorem countsDice_iff {text : String} {pre : List Token} {t : Term}
    (tokens : scan text.toList = pre ++ ts) (hp : ∀ x ∈ pre, x.span.start < t.span.stop)
    (scanned : scanFrom 0 t.span.stop s = ts) :
    CountsDice text rolls t ↔ DiceAt rolls t.span.stop ts := by
  have later := (span_of_mem_scanFrom scanned).1
  have none : ts.dropWhile (fun x ↦ x.span.start < t.span.stop) = ts := by
    cases ts with
    | nil => rfl
    | cons x ts =>
      have le := (later x List.mem_cons_self).1
      rw [List.dropWhile_cons_of_neg (by simpa using le)]
  rw [CountsDice, tokens, List.dropWhile_append_of_pos (by simpa using hp), none]

/-- A match begins with a number after separators, and it stands at its span. -/
private theorem split_of_match {used left : List Token} {t : Term} (m : Match t used left)
    (scanned : scanFrom 0 o s = used ++ ts) :
    ∃ n rest before a old after, used = n :: rest ∧ s = before ++ (a :: old) ++ after ∧
      n.kind = .integer ∧ a.isDigit = true ∧ (∀ c ∈ before, isSeparator c = true) ∧
      n.span.start = o + Text.byteLength before ∧
      t.span = ⟨o + Text.byteLength before, o + Text.byteLength (before ++ a :: old)⟩ ∧
      scanFrom 0 t.span.stop after = ts := by
  have read := m.cut 0 [] List.nil_prefix
  rw [List.append_nil] at read
  obtain ⟨n, d, x, rest, _, _, _, rfl, count, _⟩ := Grammar.parseTokens_eq_ok.mp read
  obtain ⟨before, after, rfl, blank, start, stop, ⟨piece, _⟩, scanned'⟩ :=
    scanFrom_gapless scanned m.gapless m.ne_nil
  rw [count] at piece
  obtain ⟨a, old, digits⟩ := List.exists_cons_of_ne_nil piece.ne_nil
  have digit : a.isDigit = true := (piece.form (by decide)).isDigit_of_mem (by simp [digits])
  have first : n.span.start = t.span.start := m.gapless.1
  rw [start, Nat.add_assoc, ← Text.byteLength_append] at stop
  rw [List.flatMap_cons, digits, List.cons_append] at stop ⊢
  exact ⟨n, d :: x :: rest, before, a, _, after, rfl, rfl, count, digit, blank, first.trans start,
    by rw [← start, ← stop], scanned'⟩

/-- Where the scan of a text has come to: `pre` are the tokens it has passed, `s` and `ts` are what
stands ahead, and `news` are the rolls of the terms ahead. -/
private structure Ahead (text : String) (rolls : List (Term × Scored)) (pre : List Token) (o : Nat)
    (s : List Char) (ts : List Token) (news : List (Term × Scored)) : Prop where
  scanned : scanFrom 0 o s = ts
  tokens : scan text.toList = pre ++ ts
  passed : ∀ x ∈ pre, x.span.start < o
  split : ∀ x ∈ rolls, x ∈ news ∨ x.1.span.start < o
  known : ∀ x ∈ news, x ∈ rolls

namespace Ahead

variable {text : String} {pre : List Token}

private theorem skip {t : Token} (h : Ahead text rolls pre o s (t :: ts) news)
    (scanned : scanFrom 0 t.span.stop s' = ts) :
    Ahead text rolls (pre ++ [t]) t.span.stop s' ts news := by
  obtain ⟨start, extent⟩ := (span_of_mem_scanFrom h.scanned).1 t List.mem_cons_self
  refine ⟨scanned, by simp [h.tokens], ?_, fun x hx ↦ ?_, h.known⟩
  · refine List.forall_mem_append.mpr ⟨fun x hx ↦ ?_, by simpa using extent⟩
    have lt := h.passed x hx
    omega
  · exact (h.split x hx).imp_right fun lt ↦ by omega

private theorem take {used left : List Token} {x : Term × Scored}
    (h : Ahead text rolls pre o s (used ++ ts) (x :: news)) (m : Match x.1 used left)
    (scanned : scanFrom 0 x.1.span.stop s' = ts) :
    Ahead text rolls (pre ++ used) x.1.span.stop s' ts news := by
  have bounds : ∀ y ∈ used, o ≤ y.span.start ∧ y.span.start < y.span.stop := fun y hy ↦
    (span_of_mem_scanFrom h.scanned).1 y (List.mem_append_left _ hy)
  have within := (m.gapless.bounds fun y hy ↦ (bounds y hy).2).2
  have inside : ∀ y ∈ used, y.span.start < x.1.span.stop := by
    intro y hy
    have extent := (bounds y hy).2
    have last := (within y hy).2
    omega
  obtain ⟨first, hf, start⟩ := m.exists_first
  have later := (bounds first hf).1
  have extent := inside first hf
  refine ⟨scanned, by rw [h.tokens, List.append_assoc], ?_, fun y hy ↦ ?_, fun y hy ↦ ?_⟩
  · refine List.forall_mem_append.mpr ⟨fun y hy ↦ ?_, inside⟩
    have lt := h.passed y hy
    omega
  · rcases h.split y hy with hy | lt
    · rcases List.mem_cons.mp hy with rfl | hy
      · exact .inr (start ▸ extent)
      · exact .inl hy
    · exact .inr (by omega)
  · exact h.known y (List.mem_cons_of_mem _ hy)

/-- No term begins where the scan is, if all terms ahead begin later. -/
private theorem start_ne (h : Ahead text rolls pre o s ts news)
    (later : ∀ x ∈ news, o < x.1.span.start) : ∀ x ∈ rolls, x.1.span.start ≠ o := by
  intro x hx
  rcases h.split x hx with hx | before
  · exact (later x hx).ne'
  · exact before.ne

end Ahead

/-- A text whose terms are replaced by their totals shows dice where a total that is a natural
number stands before `d` and sides, and nowhere else. -/
private theorem shows_of_finds {text : String} {pre : List Token}
    (h : Finds ts (news.map Prod.fst)) (ahead : Ahead text rolls pre o s ts news) :
    Shows rolls o ts s (Text.spliceFrom o s (totalEdits news))
      (∃ x ∈ news, Whole x.2.total ∧ CountsDice text rolls x.1) := by
  generalize hf : news.map Prod.fst = found at h
  induction h generalizing o s news pre with
  | nil =>
    obtain rfl := List.map_eq_nil_iff.mp hf
    have blank := scanFrom_eq_nil_iff.mp ahead.scanned
    have stays : Text.spliceFrom o s (totalEdits []) = s := rfl
    refine ⟨(Shares.refl s).unseen, ?_, ?_, ?_⟩ <;>
      simp [stays, marksOf_separators blank, StartsSides, StartsDice, HoldsDice, Somewhere, SidesAt,
        DiceAt]
  | @skip t ts found no rest ih =>
    subst hf
    obtain ⟨start, extent⟩ := (span_of_mem_scanFrom ahead.scanned).1 t List.mem_cons_self
    obtain ⟨before, s, rfl, blank, piece, span, scanned⟩ := scanFrom_eq_cons.mp ahead.scanned
    have later : ∀ x ∈ news, t.span.stop ≤ x.1.span.start ∧ x.1.span.start ≤ x.1.span.stop :=
      fun x hx ↦ start_of_finds rest scanned x.1 (List.mem_map_of_mem hx)
    have ends : t.span.stop = o + Text.byteLength (before ++ t.text) := by
      rw [span, Text.byteLength_append, Nat.add_assoc]
    have apart : ∀ e ∈ (totalEdits news).head?,
        o + Text.byteLength (before ++ t.text) ≤ e.1.start ∧ e.1.start ≤ e.1.stop := by
      intro e he
      obtain ⟨x, hx, rfl⟩ := List.mem_map.mp (List.mem_of_head? he)
      exact ends ▸ later x hx
    have shows := ih (ahead.skip scanned) rfl
    rw [Text.spliceFrom_append apart, ← ends, List.append_assoc, List.append_assoc]
    refine shows.skip no blank piece (by rw [span]) (ahead.start_ne fun x hx ↦ ?_)
    have after := (later x hx).1
    omega
  | @take used left more t found run m rest ih =>
    obtain ⟨x, news, rfl, rfl, rfl⟩ := List.map_eq_cons_iff.mp hf
    obtain ⟨n, rest', before, a, old, after, rfl, rfl, count, digit, blank, start, span, scanned⟩ :=
      split_of_match m ahead.scanned
    have next := ahead.take m scanned
    have shows := ih next rfl
    have stop : o + Text.byteLength (before ++ a :: old) = x.1.span.stop := by rw [span]
    have stays : before = [] → (StaysNumber rolls o ↔ Whole x.2.total) := by
      intro empty
      have begins : x.1.span.start = o := by rw [span, empty, Text.byteLength, Nat.add_zero]
      constructor
      · intro stays
        exact stays x (ahead.known x List.mem_cons_self) begins
      · -- no other term begins where this one does
        intro whole y hy same
        rcases ahead.split y hy with hy | lt
        · rcases List.mem_cons.mp hy with rfl | hy
          · exact whole
          · have after := (start_of_finds rest scanned y.1 (List.mem_map_of_mem hy)).1
            have extent := next.passed n (by simp)
            omega
        · omega
    have leftover : (∃ y ∈ x :: news, Whole y.2.total ∧ CountsDice text rolls y.1) ↔
        Whole x.2.total ∧ DiceAt rolls x.1.span.stop (left ++ more) ∨
          ∃ y ∈ news, Whole y.2.total ∧ CountsDice text rolls y.1 := by
      simp [countsDice_iff next.tokens next.passed scanned]
    have edit : totalEdits (x :: news) =
        (⟨o + Text.byteLength before, o + Text.byteLength (before ++ a :: old)⟩,
          (totalText x.2.total).toList) :: totalEdits news := by rw [← span]; rfl
    rw [edit, Text.spliceFrom_edit, stop, leftover, List.append_assoc, List.append_assoc]
    exact shows.take (writtenTotal_totalText x.2.total) blank count digit start stays

variable {σ : Type} [Roller σ]

/-- A text without terms stays as it is, and nothing is drawn. -/
theorem run_substitute_of_nil {text : String} (h : terms text = .ok []) (c : Context σ) :
    (substitute text : Rolling σ _).run c = (.ok ⟨text, []⟩, c) := by
  unfold substitute
  rw [h, run_bind_of_ok (run_ofParse_ok [] c), List.mapM_nil, run_bind_of_ok (run_pure [] c),
    run_pure, List.map_nil, Text.splice_nil, String.ofList_toList]

/-- All terms of a text are rolled, and their totals are written in their places. -/
theorem ensures_substitute (text : String) :
    Ensures (substitute text : Rolling σ _) fun r ↦ terms text = .ok (r.rolls.map Prod.fst) ∧
      r.text = String.ofList (Text.splice text.toList (totalEdits r.rolls)) := by
  refine Ensures.ofParse.bind fun found read ↦ ?_
  have rolled : Ensures (found.mapM fun t ↦ return (t, ← score t.text t.spec) : Rolling σ _)
      fun rolls ↦ rolls.map Prod.fst = found := by
    refine (Ensures.mapM (q := fun t x ↦ x.1 = t) fun t _ ↦ ?_).imp fun rolls each ↦ ?_
    · exact (Ensures.trivial _).bind fun scored _ ↦ .pure rfl
    · exact List.forall₂_eq_eq_eq ▸ List.forall₂_map_left_iff.mpr each.flip
  refine rolled.bind fun rolls same ↦ .pure ⟨?_, rfl⟩
  rw [read, same]

/-- A substitution leaves dice behind exactly where a total that is a natural number comes to stand
right before `d` and sides, which its term has not taken. A text without dice stays as it is when
it is substituted again, and nothing is drawn. -/
theorem substitute_leaves_dice_iff {text : String} {c c' : Context σ} {r : Rolled}
    (h : (substitute text).run c = (.ok r, c')) :
    terms text = .ok (r.rolls.map Prod.fst) ∧
    (terms r.text = .ok [] ↔ ∀ x ∈ r.rolls, Whole x.2.total → ¬CountsDice text r.rolls x.1) ∧
    (terms r.text = .ok [] → ∀ (τ : Type) [Roller τ] (c : Context τ),
      (substitute r.text).run c = (.ok ⟨r.text, []⟩, c)) := by
  obtain ⟨found, rewritten⟩ := ensures_substitute text c r c' h
  have ahead : Ahead text r.rolls [] 0 text.toList (scan text.toList) r.rolls :=
    ⟨rfl, rfl, by simp, fun x hx ↦ .inl hx, fun x hx ↦ hx⟩
  have shows := shows_of_finds (finds_of_termsFrom found) ahead
  refine ⟨found, ?_, fun none τ _ c ↦ run_substitute_of_nil none c⟩
  rw [terms_eq_nil_iff, rewritten, String.toList_ofList]
  refine (not_congr shows.holds).trans ?_
  push Not
  rfl

/-- An attack and its damage are replaced by their totals, and no dice are left. -/
theorem substitute_leaves_dice_iff_attackDamage :
    ∃ r c', (substitute "1d20+5 + 2d6").run (Context.new {} (Source.step 1 1)) = (.ok r, c') ∧
      r.text = "6 + 5" ∧ terms r.text = .ok [] ∧
      ∀ x ∈ r.rolls, Whole x.2.total → ¬CountsDice "1d20+5 + 2d6" r.rolls x.1 := by
  obtain ⟨r, c', run, text⟩ :=
    exists_result (r := (substitute "1d20+5 + 2d6").run (Context.new {} (Source.step 1 1)))
      (f := Rolled.text) (b := "6 + 5") (by decide +kernel)
  have none : terms "6 + 5" = .ok [] := rfl
  rw [← text] at none
  exact ⟨r, c', run, text, none, (substitute_leaves_dice_iff run).2.1.mp none⟩

/-- A total of three before a die that its term has not taken makes three dice of it. -/
theorem not_forall_terms_eq_nil_of_substitute :
    ¬∀ (text : String) (c c' : Context Source) (r : Rolled),
      (substitute text).run c = (.ok r, c') → terms r.text = .ok [] := by
  intro all
  obtain ⟨r, c', run, text⟩ :=
    exists_result (r := (substitute "1d6+1+1d6").run (Context.new {} (Source.step 1 1)))
      (f := Rolled.text) (b := "3d6") (by decide +kernel)
  have one : (terms "3d6").toOption.map List.length = some 1 := by decide +kernel
  rw [← text, all _ _ _ _ run] at one
  exact nomatch one

end DicePool.Equation
