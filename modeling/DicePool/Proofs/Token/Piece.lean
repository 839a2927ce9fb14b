import DicePool.Token.Lexer
import Mathlib.Data.List.TakeWhile

/-!
# Longest pieces

A piece has the form of a kind: digits, a face list in braces, or a word of the table of spellings.
The first piece of a text is the longest one with a form at its start. Numbers and words are made
of digits, of letters or of symbols alone, so what follows a piece matters only as far as it is of
the same class.
-/

namespace DicePool.Token

/-- Whether a piece has the form of a kind. -/
inductive Form : TokenKind → List Char → Prop where
  | integer {w : List Char} : w ≠ [] → (∀ c ∈ w, c.isDigit = true) → Form .integer w
  | faceList {w : List Char} : (∀ c ∈ w, c ≠ '\x7b' ∧ c ≠ '\x7d') →
      Form .faceList ('\x7b' :: w ++ ['\x7d'])
  | spelled {k : TokenKind} {s : String} : (k, s) ∈ TokenKind.spellings → Form k s.toList

/-- What a character can be part of. -/
inductive CharClass where
  | digit
  | letter
  | symbol
  | other
  deriving DecidableEq

/-- The class of a character: digits, small letters, the characters of operators, all others. -/
def classOf (c : Char) : CharClass :=
  if c.isDigit then .digit
  else if c.isLower then .letter
  else if c ∈ ['+', '-', '*', '/', '<', '>', '=', '!'] then .symbol
  else .other

variable {k k' : TokenKind} {w w' cs p s s' u : List Char}

/-! ### Forms -/

/-- The digits are the characters of their class. -/
theorem classOf_eq_digit_iff {c : Char} : classOf c = .digit ↔ c.isDigit = true := by
  unfold classOf
  split
  · simpa
  · next digit =>
    simp only [digit, Bool.false_eq_true, iff_false]
    split <;> [skip; split] <;> decide

private theorem spelling_injective :
    ∀ p ∈ TokenKind.spellings, ∀ q ∈ TokenKind.spellings, p.2.toList = q.2.toList → p.1 = q.1 := by
  decide

private theorem class_of_spelling :
    ∀ p ∈ TokenKind.spellings, p.2.toList ≠ [] ∧
      ((∀ c ∈ p.2.toList, classOf c = .letter) ∨ ∀ c ∈ p.2.toList, classOf c = .symbol) := by
  -- as tests of lists: a property of all characters would be decided for each code point
  have table : ∀ p ∈ TokenKind.spellings, p.2.toList ≠ [] ∧
      ((p.2.toList.all fun c ↦ classOf c = .letter) ∨
        p.2.toList.all fun c ↦ classOf c = .symbol) := by decide
  simpa only [List.all_eq_true, decide_eq_true_eq] using table

private theorem kind_of_spelling :
    ∀ p ∈ TokenKind.spellings, p.1 ≠ .integer ∧ p.1 ≠ .faceList ∧ p.1 ≠ .unrecognized := by
  decide

namespace Form

/-- The characters of a number or of a word are of one class. -/
theorem uniform (h : Form k w) (hk : k ≠ .faceList) :
    ∃ a ≠ CharClass.other, ∀ c ∈ w, classOf c = a := by
  cases h with
  | integer _ digits =>
    exact ⟨.digit, by decide, fun c hc ↦ classOf_eq_digit_iff.mpr (digits c hc)⟩
  | faceList => contradiction
  | spelled mem =>
    rcases (class_of_spelling _ mem).2 with letters | symbols
    · exact ⟨.letter, by decide, letters⟩
    · exact ⟨.symbol, by decide, symbols⟩

/-- A form has at least one character. -/
theorem ne_nil (h : Form k w) : w ≠ [] := by
  cases h with
  | integer ne _ => exact ne
  | faceList => exact List.cons_ne_nil _ _
  | spelled mem => exact (class_of_spelling _ mem).1

/-- Unrecognized text has no form. -/
theorem kind_ne_unrecognized (h : Form k w) : k ≠ .unrecognized := by
  cases h with
  | integer => decide
  | faceList => decide
  | spelled mem => exact (kind_of_spelling _ mem).2.2

/-- A face list is a text without braces in braces. -/
theorem exists_body (h : Form .faceList w) :
    ∃ inner, (∀ c ∈ inner, c ≠ '\x7b' ∧ c ≠ '\x7d') ∧ w = '\x7b' :: inner ++ ['\x7d'] := by
  cases h with
  | faceList inner => exact ⟨_, inner, rfl⟩
  | spelled mem => exact absurd rfl (kind_of_spelling _ mem).2.1

/-- The digits of a number. -/
theorem isDigit_of_mem (h : Form .integer w) {c : Char} (hc : c ∈ w) : c.isDigit = true := by
  cases h with
  | integer _ digits => exact digits c hc
  | spelled mem => exact absurd rfl (kind_of_spelling _ mem).1

/-- A form that is neither a number nor a face list is a word of the table. -/
theorem exists_spelling (h : Form k w) (hi : k ≠ .integer) (hf : k ≠ .faceList) :
    ∃ s, (k, s) ∈ TokenKind.spellings ∧ s.toList = w := by
  cases h with
  | integer => contradiction
  | faceList => contradiction
  | spelled mem => exact ⟨_, mem, rfl⟩

/-- There is one way to write `d`. -/
theorem eq_of_dice (h : Form .dice w) : w = ['d'] := by
  have table : ∀ p ∈ TokenKind.spellings, p.1 = .dice → p.2.toList = ['d'] := by decide
  obtain ⟨s, mem, rfl⟩ := h.exists_spelling (by decide) (by decide)
  exact table _ mem rfl

/-- The forms that begin with a digit are those of integers. -/
theorem kind_eq_integer_iff {c : Char} (h : Form k (c :: w)) :
    k = .integer ↔ classOf c = .digit := by
  constructor
  · rintro rfl
    exact classOf_eq_digit_iff.mpr (h.isDigit_of_mem List.mem_cons_self)
  · intro digit
    by_contra hi
    by_cases hf : k = .faceList
    · obtain ⟨_, _, same⟩ := (hf ▸ h).exists_body
      obtain ⟨rfl, _⟩ := List.cons.inj same
      exact absurd digit (by decide)
    · obtain ⟨s, mem, same⟩ := h.exists_spelling hi hf
      have hc : c ∈ s.toList := same ▸ List.mem_cons_self
      rcases (class_of_spelling _ mem).2 with all | all
      · exact absurd (digit.symm.trans (all c hc)) (by decide)
      · exact absurd (digit.symm.trans (all c hc)) (by decide)

/-- The forms that begin with a brace are those of face lists. -/
theorem kind_eq_faceList_iff {c : Char} (h : Form k (c :: w)) :
    k = .faceList ↔ c = '\x7b' := by
  constructor
  · rintro rfl
    obtain ⟨_, _, same⟩ := h.exists_body
    exact (List.cons.inj same).1
  · rintro rfl
    by_contra hf
    obtain ⟨a, ha, all⟩ := h.uniform hf
    exact ha (all _ List.mem_cons_self).symm

/-- A piece has at most one form. -/
theorem functional (h : Form k w) (h' : Form k' w) : k = k' := by
  obtain ⟨c, rest, rfl⟩ := List.exists_cons_of_ne_nil h.ne_nil
  by_cases digit : classOf c = .digit
  · rw [h.kind_eq_integer_iff.mpr digit, h'.kind_eq_integer_iff.mpr digit]
  · by_cases brace : c = '\x7b'
    · rw [h.kind_eq_faceList_iff.mpr brace, h'.kind_eq_faceList_iff.mpr brace]
    · obtain ⟨s, mem, hs⟩ := h.exists_spelling
        (mt h.kind_eq_integer_iff.mp digit) (mt h.kind_eq_faceList_iff.mp brace)
      obtain ⟨s', mem', hs'⟩ := h'.exists_spelling
        (mt h'.kind_eq_integer_iff.mp digit) (mt h'.kind_eq_faceList_iff.mp brace)
      exact spelling_injective _ mem _ mem' (hs.trans hs'.symm)

end Form

/-! ### Text before a brace -/

/-- No brace stands before the first brace. -/
theorem not_brace_of_mem_beforeBrace {c : Char} (h : c ∈ beforeBrace cs) :
    c ≠ '\x7b' ∧ c ≠ '\x7d' := by
  simpa using List.mem_takeWhile_imp h

/-- A text without braces stands before the first brace after it. -/
theorem beforeBrace_append (h : ∀ c ∈ w, c ≠ '\x7b' ∧ c ≠ '\x7d') :
    beforeBrace (w ++ s) = w ++ beforeBrace s :=
  List.takeWhile_append_of_pos fun c hc ↦ by simpa using h c hc

/-- Nothing stands before a brace at the start. -/
theorem beforeBrace_eq_nil_iff :
    beforeBrace s = [] ↔ ∀ c ∈ s.head?, c = '\x7b' ∨ c = '\x7d' := by
  cases s with
  | nil => simp [beforeBrace]
  | cons c s => simp [beforeBrace, List.takeWhile_cons, or_iff_not_imp_left]

private theorem beforeBrace_append_drop (cs : List Char) :
    beforeBrace cs ++ cs.drop (beforeBrace cs).length = cs := by
  have whole : beforeBrace cs ++ cs.dropWhile _ = cs := List.takeWhile_append_dropWhile
  have rest := congrArg (List.drop (beforeBrace cs).length) whole
  rw [List.drop_left] at rest
  rw [← rest, whole]

/-! ### Candidates for the first piece -/

/-- The pieces with a form at the start of a text, of the integers only the longest. -/
private def candidates (cs : List Char) : List (TokenKind × List Char) :=
  (integerPiece cs).toList ++ (faceListPiece cs).toList ++ spelledPieces cs

private theorem mem_spelledPieces : (k, w) ∈ spelledPieces cs ↔
    w <+: cs ∧ ∃ s, (k, s) ∈ TokenKind.spellings ∧ s.toList = w := by
  simp only [spelledPieces, List.mem_filter, List.mem_map, Prod.exists, Prod.mk.injEq,
    List.isPrefixOf_iff_prefix]
  constructor
  · rintro ⟨⟨k', s, mem, rfl, rfl⟩, fits⟩
    exact ⟨fits, s, mem, rfl⟩
  · rintro ⟨fits, s, mem, rfl⟩
    exact ⟨⟨k, s, mem, rfl, rfl⟩, fits⟩

private theorem form_of_integerPiece (h : integerPiece cs = some (k, w)) :
    Form k w ∧ w <+: cs := by
  simp only [integerPiece] at h
  split at h
  · contradiction
  · next ne =>
    cases h
    exact ⟨.integer ne fun c hc ↦ List.mem_takeWhile_imp hc, List.takeWhile_prefix _⟩

private theorem integerPiece_of_digits (ne : w ≠ []) (digits : ∀ c ∈ w, c.isDigit = true) :
    integerPiece (w ++ s) = some (.integer, w ++ s.takeWhile Char.isDigit) := by
  have taken : (w ++ s).takeWhile Char.isDigit = w ++ s.takeWhile Char.isDigit :=
    List.takeWhile_append_of_pos digits
  simp [integerPiece, taken, ne]

private theorem form_of_faceListPiece (h : faceListPiece cs = some (k, w)) :
    Form k w ∧ w <+: cs := by
  unfold faceListPiece at h
  split at h
  · next rest =>
    simp only at h
    split at h
    · next closed =>
      cases h
      obtain ⟨after, hd⟩ := List.head?_eq_some_iff.mp closed
      have whole := beforeBrace_append_drop rest
      rw [hd] at whole
      exact ⟨.faceList fun c hc ↦ not_brace_of_mem_beforeBrace hc, after, by simp [whole]⟩
    · contradiction
  · contradiction

private theorem faceListPiece_of_body (h : ∀ c ∈ w, c ≠ '\x7b' ∧ c ≠ '\x7d') :
    faceListPiece ('\x7b' :: w ++ ['\x7d'] ++ s) =
      some (.faceList, '\x7b' :: w ++ ['\x7d']) := by
  have inner : beforeBrace (w ++ '\x7d' :: s) = w := by
    rw [beforeBrace_append h]
    simp [beforeBrace]
  simp [faceListPiece, inner]

private theorem form_of_mem_candidates (h : (k, w) ∈ candidates cs) : Form k w ∧ w <+: cs := by
  simp only [candidates, List.mem_append, Option.mem_toList] at h
  rcases h with (h | h) | h
  · exact form_of_integerPiece h
  · exact form_of_faceListPiece h
  · obtain ⟨fits, s, mem, rfl⟩ := mem_spelledPieces.mp h
    exact ⟨.spelled mem, fits⟩

private theorem exists_candidate (h : Form k w) (fits : w <+: cs) :
    ∃ q ∈ candidates cs, w.length ≤ q.2.length := by
  obtain ⟨s, rfl⟩ := fits
  cases h with
  | integer ne digits =>
    refine ⟨(.integer, w ++ s.takeWhile Char.isDigit), ?_, by simp⟩
    simp [candidates, integerPiece_of_digits ne digits]
  | @faceList body inner =>
    refine ⟨(.faceList, '\x7b' :: body ++ ['\x7d']), ?_, le_rfl⟩
    unfold candidates
    rw [faceListPiece_of_body inner]
    simp
  | spelled mem =>
    refine ⟨(k, _), List.mem_append_right _ (mem_spelledPieces.mpr ⟨?_, _, mem, rfl⟩), le_rfl⟩
    exact List.prefix_append _ _

private theorem foldl_longer (p : TokenKind × List Char) (ps : List (TokenKind × List Char)) :
    ps.foldl longer p ∈ p :: ps ∧ ∀ q ∈ p :: ps, q.2.length ≤ (ps.foldl longer p).2.length := by
  induction ps generalizing p with
  | nil => simp
  | cons q ps ih =>
    obtain ⟨mem, longest⟩ := ih (longer p q)
    have either : longer p q = p ∨ longer p q = q := by
      unfold longer
      split <;> simp
    have both : p.2.length ≤ (longer p q).2.length ∧ q.2.length ≤ (longer p q).2.length := by
      unfold longer
      split <;> omega
    have first := longest _ List.mem_cons_self
    rw [List.foldl_cons]
    constructor
    · rcases List.mem_cons.mp mem with h | h
      · rw [h]
        rcases either with e | e <;> simp [e]
      · exact List.mem_cons_of_mem _ (List.mem_cons_of_mem _ h)
    · intro r hr
      rcases List.mem_cons.mp hr with rfl | hr
      · exact both.1.trans first
      · rcases List.mem_cons.mp hr with rfl | hr
        · exact both.2.trans first
        · exact longest r (List.mem_cons_of_mem _ hr)

/-! ### The first piece -/

/-- A piece has the form of a kind and is the longest with a form at the start of a text. -/
structure Longest (k : TokenKind) (w cs : List Char) : Prop where
  form : Form k w
  fits : w <+: cs
  longest : ∀ k' w', Form k' w' → w' <+: cs → w'.length ≤ w.length

/-- There is at most one longest piece with a form. -/
theorem Longest.unique (h : Longest k w cs) (h' : Longest k' w' cs) : k = k' ∧ w = w' := by
  have same : w.length = w'.length :=
    Nat.le_antisymm (h'.longest _ _ h.form h.fits) (h.longest _ _ h'.form h'.fits)
  obtain rfl := (List.prefix_of_prefix_length_le h.fits h'.fits same.le).eq_of_length same
  exact ⟨h.form.functional h'.form, rfl⟩

private theorem longestPiece?_cases (cs : List Char) :
    (longestPiece? cs = none ∧ ∀ k w, Form k w → ¬w <+: cs) ∨
      ∃ k w, longestPiece? cs = some (k, w) ∧ Longest k w cs := by
  unfold longestPiece?
  split
  · next empty =>
    refine .inl ⟨rfl, fun k w form fits ↦ ?_⟩
    obtain ⟨q, hq, _⟩ := exists_candidate form fits
    exact absurd (empty ▸ hq : q ∈ []) List.not_mem_nil
  · next p ps all =>
    obtain ⟨mem, longest⟩ := foldl_longer p ps
    obtain ⟨form, fits⟩ := form_of_mem_candidates (all ▸ mem : _ ∈ candidates cs)
    refine .inr ⟨_, _, rfl, form, fits, fun k' w' form' fits' ↦ ?_⟩
    obtain ⟨q, hq, le⟩ := exists_candidate form' fits'
    exact le.trans (longest q (all ▸ hq))

/-- A recognized first piece is the longest one with a form. -/
theorem firstPiece_eq_iff (hk : k ≠ .unrecognized) :
    firstPiece cs = (k, w) ↔ Longest k w cs := by
  unfold firstPiece
  rcases longestPiece?_cases cs with ⟨none, formless⟩ | ⟨k', w', some, longest⟩
  · rw [none, Option.getD_none]
    constructor
    · intro h
      refine absurd ?_ hk
      cases cs <;> exact (congrArg Prod.fst h).symm
    · intro h
      exact absurd h.fits (formless _ _ h.form)
  · rw [some, Option.getD_some, Prod.mk.injEq]
    constructor
    · rintro ⟨rfl, rfl⟩
      exact longest
    · exact longest.unique

/-- A first piece is unrecognized exactly if nothing with a form stands at the start. -/
theorem firstPiece_eq_unrecognized_iff :
    firstPiece cs = (.unrecognized, w) ↔
      unrecognizedPiece cs = (.unrecognized, w) ∧ ∀ k w, Form k w → ¬w <+: cs := by
  unfold firstPiece
  rcases longestPiece?_cases cs with ⟨none, formless⟩ | ⟨k', w', some, longest⟩
  · rw [none, Option.getD_none]
    exact ⟨fun h ↦ ⟨h, formless⟩, And.left⟩
  · rw [some, Option.getD_some]
    constructor
    · intro h
      exact absurd (congrArg Prod.fst h) longest.form.kind_ne_unrecognized
    · rintro ⟨_, formless⟩
      exact absurd longest.fits (formless _ _ longest.form)

/-! ### What follows a piece -/

/-- A face list ends at its closing brace. -/
theorem Form.eq_nil_of_faceList (h : Form .faceList p) (h' : Form k (p ++ u)) : u = [] := by
  obtain ⟨inner, free, rfl⟩ := h.exists_body
  obtain rfl := h'.kind_eq_faceList_iff.mpr rfl
  obtain ⟨inner', free', same⟩ := h'.exists_body
  have bodies : inner ++ ('\x7d' :: u) = inner' ++ ['\x7d'] := by simpa using same
  have first := congrArg beforeBrace bodies
  rw [beforeBrace_append free, beforeBrace_append free'] at first
  obtain rfl : inner = inner' := by simpa [beforeBrace] using first
  simpa using bodies

/-- What goes on after a longer form that is not a face list is of the class of the piece. -/
theorem Form.class_of_append (h : Form k p) (h' : Form k' (p ++ u)) (hu : u ≠ []) :
    ∃ a ≠ CharClass.other, ∀ c ∈ p ++ u, classOf c = a := by
  by_cases hf : k = .faceList
  · exact absurd ((hf ▸ h).eq_nil_of_faceList h') hu
  · refine h'.uniform fun hf' ↦ hf ?_
    obtain ⟨c, rest, rfl⟩ := List.exists_cons_of_ne_nil h.ne_nil
    exact h.kind_eq_faceList_iff.mpr (h'.kind_eq_faceList_iff.mp hf')

/-- A piece is the longest if no longer one goes on with what follows. -/
theorem Form.longest_append (h : Form k p)
    (hs : ∀ k' u, Form k' (p ++ u) → u <+: s → u = []) : Longest k p (p ++ s) := by
  refine ⟨h, List.prefix_append _ _, fun k' w' form fits ↦ ?_⟩
  rcases Nat.le_total w'.length p.length with le | ge
  · exact le
  · obtain ⟨u, rfl⟩ := List.prefix_of_prefix_length_le (List.prefix_append p s) fits ge
    rw [hs k' u form ((List.prefix_append_right_inj p).mp fits), List.append_nil]

/-- Nothing longer than the longest piece goes on with what follows. -/
theorem Longest.eq_nil_of_form (h : Longest k p (p ++ s)) (h' : Form k' (p ++ u)) (hu : u <+: s) :
    u = [] := by
  have le := h.longest _ _ h' ((List.prefix_append_right_inj p).mpr hu)
  rw [List.length_append] at le
  exact List.length_eq_zero_iff.mp (by omega)

/-- The longest piece stays the longest if the text is cut after it. -/
theorem Longest.cut (h : Longest k p (p ++ s)) (hs : s' <+: s) : Longest k p (p ++ s') :=
  h.form.longest_append fun _ _ form hu ↦ h.eq_nil_of_form form (hu.trans hs)

/-- A piece ends where the class of the characters changes; a face list ends in any case. -/
theorem Form.longest_of_class (h : Form k p)
    (hs : k ≠ .faceList → ∀ c ∈ s.head?, ∀ d ∈ p, classOf c ≠ classOf d) :
    Longest k p (p ++ s) := by
  refine h.longest_append fun k' u form hu ↦ ?_
  by_contra ne
  have hf : k ≠ .faceList := by
    rintro rfl
    exact ne (h.eq_nil_of_faceList form)
  obtain ⟨a, _, all⟩ := h.class_of_append form ne
  obtain ⟨c, u, rfl⟩ := List.exists_cons_of_ne_nil ne
  obtain ⟨rest, rfl⟩ := hu
  obtain ⟨d, hd⟩ := List.exists_mem_of_ne_nil _ h.ne_nil
  apply hs hf c rfl d hd
  rw [all c (by simp), all d (by simp [hd])]

/-- What is unrecognized is one character, or an opening brace and the text up to the next brace. -/
theorem unrecognizedPiece_append_iff (ne : p ≠ []) :
    unrecognizedPiece (p ++ s) = (.unrecognized, p) ↔
      (∃ c, p = [c] ∧ c ≠ '\x7b') ∨
        ∃ inner, p = '\x7b' :: inner ∧ (∀ c ∈ inner, c ≠ '\x7b' ∧ c ≠ '\x7d') ∧
          ∀ c ∈ s.head?, c = '\x7b' ∨ c = '\x7d' := by
  obtain ⟨c, inner, rfl⟩ := List.exists_cons_of_ne_nil ne
  simp only [List.cons_append, unrecognizedPiece, Prod.mk.injEq, true_and, List.cons.injEq]
  by_cases brace : c = '\x7b'
  · subst brace
    constructor
    · intro h
      have free : ∀ x ∈ inner, x ≠ '\x7b' ∧ x ≠ '\x7d' := fun x hx ↦
        not_brace_of_mem_beforeBrace (h ▸ hx)
      rw [if_pos rfl, beforeBrace_append free, List.append_right_eq_self] at h
      exact .inr ⟨inner, ⟨rfl, rfl⟩, free, beforeBrace_eq_nil_iff.mp h⟩
    · rintro (⟨_, ⟨rfl, _⟩, ne⟩ | ⟨_, ⟨_, rfl⟩, free, ends⟩)
      · contradiction
      · rw [if_pos rfl, beforeBrace_append free, beforeBrace_eq_nil_iff.mpr ends, List.append_nil]
  · simp only [brace, if_false, false_and, exists_false, or_false]
    constructor
    · rintro rfl
      exact ⟨c, ⟨rfl, rfl⟩, brace⟩
    · rintro ⟨_, ⟨_, rfl⟩, _⟩
      rfl

/-- Whether what `s'` begins with in characters of one class, `s` begins with as well. -/
def Runs (s s' : List Char) : Prop :=
  ∀ u, ∀ a ≠ CharClass.other, u <+: s' → (∀ c ∈ u, classOf c = a) → u <+: s

namespace Runs

/-- Every text begins like itself. -/
theorem refl (s : List Char) : Runs s s := fun _ _ _ hu _ ↦ hu

/-- Texts begin alike after the same beginning. -/
theorem append_left (q : List Char) (h : Runs s s') : Runs (q ++ s) (q ++ s') := by
  intro u a ha hu same
  rcases Nat.le_total u.length q.length with le | ge
  · have short := List.prefix_of_prefix_length_le hu (List.prefix_append q s') le
    exact short.trans (List.prefix_append _ _)
  · obtain ⟨v, rfl⟩ := List.prefix_of_prefix_length_le (List.prefix_append q s') hu ge
    rw [List.prefix_append_right_inj] at hu ⊢
    exact h v a ha hu fun c hc ↦ same c (List.mem_append_right _ hc)

/-- Nothing of one class begins where no class does. -/
theorem of_head? (s : List Char) (h : ∀ c ∈ s'.head?, classOf c = .other) : Runs s s' := by
  intro u a ha hu same
  cases u with
  | nil => exact List.nil_prefix
  | cons c u =>
    obtain ⟨rest, rfl⟩ := hu
    exact absurd ((same c List.mem_cons_self).symm.trans (h c rfl)) ha

/-- The longest piece stays the longest. -/
theorem longest (h : Runs s s') (hp : Longest k p (p ++ s)) : Longest k p (p ++ s') := by
  refine hp.form.longest_append fun k' u form hu ↦ ?_
  by_contra ne
  obtain ⟨a, ha, all⟩ := hp.form.class_of_append form ne
  have shared := h u a ha hu fun c hc ↦ all c (List.mem_append_right _ hc)
  exact ne (hp.eq_nil_of_form form shared)

end Runs

/-- Whether two texts begin with the same character, and what the second begins with in characters
of one class, the first begins with as well. -/
structure Shares (s s' : List Char) : Prop where
  head?_eq : s.head? = s'.head?
  run : ∀ u, ∀ a ≠ CharClass.other, u <+: s' → (∀ c ∈ u, classOf c = a) → u <+: s

namespace Shares

/-- A face list that starts with unrecognized text closes at the character after it. -/
private theorem faceList_prefix (h : Shares s s') (ne : p ≠ [])
    (hp : unrecognizedPiece (p ++ s) = (.unrecognized, p)) (form : Form .faceList w)
    (fits : w <+: p ++ s') : w <+: p ++ s := by
  obtain ⟨body, free, rfl⟩ := form.exists_body
  obtain ⟨t, ht⟩ := fits
  rcases (unrecognizedPiece_append_iff ne).mp hp with ⟨c, rfl, other⟩ | ⟨inner, rfl, free', ends⟩
  · exact absurd (List.cons.inj ht).1.symm other
  · have bodies : body ++ '\x7d' :: t = inner ++ s' := by simpa using ht
    have none : beforeBrace s' = [] := beforeBrace_eq_nil_iff.mpr (h.head?_eq ▸ ends)
    have first := congrArg beforeBrace bodies
    rw [beforeBrace_append free, beforeBrace_append free', none] at first
    obtain rfl : body = inner := by simpa [beforeBrace] using first
    have closes : s.head? = some '\x7d' := by
      rw [h.head?_eq, ← List.append_cancel_left bodies, List.head?_cons]
    obtain ⟨rest, rfl⟩ := List.head?_eq_some_iff.mp closes
    exact ⟨rest, by simp⟩

/-- A piece is the same before texts that begin alike. -/
theorem firstPiece_eq (h : Shares s s') (ne : p ≠ []) (hp : firstPiece (p ++ s) = (k, p)) :
    firstPiece (p ++ s') = (k, p) := by
  by_cases hk : k = .unrecognized
  · subst hk
    rw [firstPiece_eq_unrecognized_iff] at hp ⊢
    obtain ⟨piece, formless⟩ := hp
    refine ⟨?_, fun k w form fits ↦ formless k w form ?_⟩
    · rw [unrecognizedPiece_append_iff ne] at piece ⊢
      rwa [← h.head?_eq]
    · by_cases hf : k = .faceList
      · exact h.faceList_prefix ne piece (hf ▸ form) fits
      · obtain ⟨a, ha, all⟩ := form.uniform hf
        exact Runs.append_left p h.run w a ha fits all
  · rw [firstPiece_eq_iff hk] at hp ⊢
    exact Runs.longest h.run hp

/-- Every text begins like itself. -/
theorem refl (s : List Char) : Shares s s := ⟨rfl, Runs.refl s⟩

/-- Texts that begin alike do so after the same beginning. -/
theorem append_left (q : List Char) (h : Shares s s') : Shares (q ++ s) (q ++ s') :=
  ⟨by cases q <;> simp [h.head?_eq], Runs.append_left q h.run⟩

/-- Behind a character of another class than the next one, anything may come instead. -/
theorem of_change {b : Char} (ne : p ≠ [])
    (hb : ∀ o ∈ p.getLast?, classOf o ≠ classOf b ∨ classOf b = .other) :
    Shares (p ++ s) (p ++ b :: s') := by
  obtain ⟨init, o, rfl⟩ := List.eq_nil_or_concat p |>.resolve_left ne
  rw [List.concat_eq_append, List.append_assoc, List.append_assoc]
  refine append_left init ⟨rfl, fun u a ha hu same ↦ ?_⟩
  match u with
  | [] => exact List.nil_prefix
  | [c] => simpa using hu
  | c :: d :: u =>
    simp only [List.cons_append, List.nil_append, List.cons_prefix_cons] at hu ⊢
    obtain ⟨rfl, rfl, -⟩ := hu
    have first := same c (by simp)
    have second := same d (by simp)
    rcases hb c (by simp) with ne | other
    · exact absurd (first.trans second.symm) ne
    · exact absurd (second.symm.trans other) ha

end Shares

/-! ### Pieces before a text -/

/-- Whether a piece of a kind is cut off before the given text. -/
structure Piece (k : TokenKind) (p s : List Char) : Prop where
  visible : ∃ c ∈ p.head?, isSeparator c = false
  first : firstPiece (p ++ s) = (k, p)

namespace Piece

/-- A piece has at least one character. -/
theorem ne_nil (h : Piece k p s) : p ≠ [] := by
  obtain ⟨c, hc, _⟩ := h.visible
  rintro rfl
  contradiction

/-- A recognized piece has the form of its kind. -/
theorem form (h : Piece k p s) (hk : k ≠ .unrecognized) : Form k p :=
  ((firstPiece_eq_iff hk).mp h.first).form

/-- Cutting the text after a piece does not change the piece. -/
theorem cut (h : Piece k p s) (hs : s' <+: s) : Piece k p s' := by
  refine ⟨h.visible, ?_⟩
  have first := h.first
  by_cases hk : k = .unrecognized
  · subst hk
    rw [firstPiece_eq_unrecognized_iff] at first ⊢
    obtain ⟨piece, formless⟩ := first
    constructor
    · rw [unrecognizedPiece_append_iff h.ne_nil] at piece ⊢
      refine piece.imp_right fun ⟨inner, same, free, ends⟩ ↦ ⟨inner, same, free, fun c hc ↦ ?_⟩
      obtain ⟨rest, rfl⟩ := hs
      exact ends c (by simp [List.head?_append, Option.mem_def.mp hc])
    · exact fun k w form fits ↦
        formless k w form (fits.trans ((List.prefix_append_right_inj p).mpr hs))
  · rw [firstPiece_eq_iff hk] at first ⊢
    exact first.cut hs

/-- No digit follows a number. -/
theorem not_digit (h : Piece .integer p s) {c : Char} (hc : c ∈ s.head?) : c.isDigit = false := by
  by_contra digit
  obtain ⟨rest, rfl⟩ := List.head?_eq_some_iff.mp hc
  have form := h.form (by decide)
  have longer : Form .integer (p ++ [c]) := by
    refine .integer (by simp) fun d hd ↦ ?_
    rcases List.mem_append.mp hd with hd | hd
    · exact form.isDigit_of_mem hd
    · rw [List.mem_singleton.mp hd]
      simpa using digit
  have longest := (firstPiece_eq_iff (by decide)).mp h.first
  exact absurd (longest.eq_nil_of_form longer (List.prefix_append [c] rest))
    (List.cons_ne_nil c [])

/-- A recognized piece is the same before a text that begins with no more of one class. -/
theorem runs (h : Piece k p s) (hk : k ≠ .unrecognized) (hs : Runs s s') : Piece k p s' :=
  ⟨h.visible, (firstPiece_eq_iff hk).mpr (hs.longest ((firstPiece_eq_iff hk).mp h.first))⟩

/-- A piece is the same before texts that begin alike. -/
theorem shares (h : Piece k p s) (hs : Shares s s') : Piece k p s' :=
  ⟨h.visible, hs.firstPiece_eq h.ne_nil h.first⟩

end Piece

/-- A separator is part of no number and of no word. -/
theorem class_of_separator {c : Char} (h : isSeparator c = true) :
    c ≠ '\x7b' ∧ classOf c = .other := by
  simp only [isSeparator, Bool.or_eq_true, decide_eq_true_eq] at h
  rcases h with ((rfl | rfl) | rfl) | rfl <;> decide

/-- A form does not begin with a separator. -/
private theorem Form.visible (h : Form k p) : ∃ c ∈ p.head?, isSeparator c = false := by
  obtain ⟨c, rest, rfl⟩ := List.exists_cons_of_ne_nil h.ne_nil
  refine ⟨c, rfl, ?_⟩
  by_contra hc
  obtain ⟨brace, other⟩ := class_of_separator (by simpa using hc)
  obtain ⟨a, ha, all⟩ := h.uniform (mt h.kind_eq_faceList_iff.mp brace)
  exact ha ((all c List.mem_cons_self).symm.trans other)

/-- A form is cut off where the class of the characters changes; a face list in any case. -/
theorem Form.piece (h : Form k p)
    (hs : k ≠ .faceList → ∀ c ∈ s.head?, ∀ d ∈ p, classOf c ≠ classOf d) : Piece k p s :=
  ⟨h.visible, (firstPiece_eq_iff h.kind_ne_unrecognized).mpr (h.longest_of_class hs)⟩

/-- A word is cut off before a character that goes on with it to no word of the table. -/
theorem Form.piece_of_spellings (h : Form k p) (hi : k ≠ .integer) (hf : k ≠ .faceList) {c : Char}
    (hc : ∀ q ∈ TokenKind.spellings, ¬p ++ [c] <+: q.2.toList) : Piece k p (c :: s) := by
  have longest : Longest k p (p ++ c :: s) := by
    apply h.longest_append
    intro k' u form fits
    cases u with
    | nil => rfl
    | cons d u =>
      obtain rfl : d = c := (List.cons_prefix_cons.mp fits).1
      obtain ⟨a, rest, rfl⟩ := List.exists_cons_of_ne_nil h.ne_nil
      obtain ⟨w, mem, same⟩ := form.exists_spelling
        (mt (form.kind_eq_integer_iff.trans h.kind_eq_integer_iff.symm).mp hi)
        (mt (form.kind_eq_faceList_iff.trans h.kind_eq_faceList_iff.symm).mp hf)
      refine absurd ?_ (hc _ mem)
      exact ⟨u, by simpa using same.symm⟩
  exact ⟨h.visible, (firstPiece_eq_iff h.kind_ne_unrecognized).mpr longest⟩

/-- Digits are a piece where no digit follows. -/
theorem Piece.of_digits (ne : p ≠ []) (digits : ∀ c ∈ p, c.isDigit = true)
    (hs : ∀ c ∈ s.head?, c.isDigit = false) : Piece .integer p s := by
  refine (Form.integer ne digits).piece fun _ c hc d hd ↦ ?_
  rw [classOf_eq_digit_iff.mpr (digits d hd), Ne, classOf_eq_digit_iff, hs c hc]
  decide

/-- A character that is part of no form is a piece by itself. -/
theorem Piece.of_other {c : Char} (other : classOf c = .other) (brace : c ≠ '\x7b')
    (visible : isSeparator c = false) : Piece .unrecognized [c] s := by
  have ne : [c] ≠ [] := List.cons_ne_nil c []
  refine ⟨⟨c, rfl, visible⟩, firstPiece_eq_unrecognized_iff.mpr
    ⟨(unrecognizedPiece_append_iff ne).mpr (.inl ⟨c, rfl, brace⟩), fun k w form fits ↦ ?_⟩⟩
  obtain ⟨d, rest, rfl⟩ := List.exists_cons_of_ne_nil form.ne_nil
  obtain rfl : d = c := (List.cons_prefix_cons.mp fits).1
  obtain ⟨a, ha, all⟩ := form.uniform (mt form.kind_eq_faceList_iff.mp brace)
  exact ha ((all d List.mem_cons_self).symm.trans other)

/-! ### Changes after a piece -/

/-- Whether a text can be changed behind every piece: the piece stays, and what stands before it
does not see the change. -/
def Unseen (s s' : List Char) : Prop :=
  ∀ k p, Piece k p s → Piece k p s' ∧ Shares (p ++ s) (p ++ s')

/-- A text can be changed to one that begins alike. -/
theorem Shares.unseen (h : Shares s s') : Unseen s s' :=
  fun _ p piece ↦ ⟨piece.shares h, h.append_left p⟩

/-- A piece with a form before a number is not made of digits. -/
private theorem Piece.class_ne_digit {a : Char} (h : Piece k p (a :: s)) (digit : a.isDigit = true)
    (form : Form k p) (hf : k ≠ .faceList) :
    ∃ cl ≠ CharClass.other, cl ≠ .digit ∧ ∀ c ∈ p, classOf c = cl := by
  obtain ⟨cl, ne, all⟩ := form.uniform hf
  refine ⟨cl, ne, ?_, all⟩
  rintro rfl
  obtain ⟨c, rest, rfl⟩ := List.exists_cons_of_ne_nil form.ne_nil
  obtain rfl := form.kind_eq_integer_iff.mpr (all c List.mem_cons_self)
  have other := h.not_digit (c := a) rfl
  rw [digit] at other
  contradiction

/-- A number can be changed to what begins with a digit or with a character of no other piece. -/
theorem unseen_of_digit {a b : Char} (digit : a.isDigit = true)
    (hb : classOf b = .digit ∨ classOf b = .other) : Unseen (a :: s) (b :: s') := by
  intro k p h
  by_cases hk : k = .unrecognized
  · subst hk
    obtain ⟨piece, formless⟩ := firstPiece_eq_unrecognized_iff.mp h.first
    rcases (unrecognizedPiece_append_iff h.ne_nil).mp piece with ⟨c, rfl, brace⟩ | ⟨_, _, _, ends⟩
    · have change : classOf c ≠ classOf b ∨ classOf b = .other := by
        refine hb.imp_left fun number ↦ ?_
        rw [number, Ne, classOf_eq_digit_iff]
        exact fun hc ↦ formless _ _ (.integer (List.cons_ne_nil c []) (by simpa using hc))
          (List.prefix_append _ _)
      have shared : Shares ([c] ++ a :: s) ([c] ++ b :: s') :=
        .of_change (List.cons_ne_nil c []) (by simpa using change)
      refine ⟨⟨h.visible, firstPiece_eq_unrecognized_iff.mpr ⟨?_, fun k w form fits ↦ ?_⟩⟩, shared⟩
      · exact (unrecognizedPiece_append_iff h.ne_nil).mpr (.inl ⟨c, rfl, brace⟩)
      · have hf : k ≠ .faceList := by
          rintro rfl
          obtain ⟨_, _, rfl⟩ := form.exists_body
          obtain ⟨_, same⟩ := fits
          exact brace (List.cons.inj same).1.symm
        obtain ⟨cl, ne, all⟩ := form.uniform hf
        exact formless k w form (shared.run w cl ne fits all)
    · rcases ends a rfl with rfl | rfl <;> contradiction
  · have form := h.form hk
    by_cases hf : k = .faceList
    · refine ⟨form.piece fun ne ↦ absurd hf ne, .of_change h.ne_nil fun o ho ↦ ?_⟩
      obtain ⟨_, _, rfl⟩ := (hf ▸ form).exists_body
      obtain rfl : '\x7d' = o := Option.some.inj (List.getLast?_concat.symm.trans ho)
      exact hb.imp_left fun number ↦ by rw [number]; decide
    · obtain ⟨cl, ne, number, all⟩ := h.class_ne_digit digit form hf
      have change : ∀ c ∈ p, classOf c ≠ classOf b := by
        intro c hc
        rw [all c hc]
        rcases hb with hb | hb <;> rw [hb] <;> assumption
      exact ⟨form.piece fun _ c hc d hd ↦ Option.some.inj hc ▸ (change d hd).symm,
        .of_change h.ne_nil fun o ho ↦ .inl (change o (List.mem_of_getLast? ho))⟩

/-- A number after separators can be changed to what begins with a digit or with a character of no
other piece. -/
theorem unseen_append_of_digit {a b : Char} {before : List Char}
    (blank : ∀ c ∈ before, isSeparator c = true) (digit : a.isDigit = true)
    (hb : classOf b = .digit ∨ classOf b = .other) :
    Unseen (before ++ a :: s) (before ++ b :: s') := by
  by_cases ne : before = []
  · subst ne
    exact unseen_of_digit digit hb
  · refine (Shares.of_change ne fun o ho ↦ ?_).unseen
    have other := (class_of_separator (blank o (List.mem_of_getLast? ho))).2
    refine hb.imp_left fun number ↦ ?_
    rw [other, number]
    decide

end DicePool.Token
