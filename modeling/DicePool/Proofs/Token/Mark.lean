import DicePool.Proofs.Token.Scan

/-!
# Tokens without positions

The marks of a text are its tokens by their kinds and texts, and by whether each begins where what
stands before it ends. A text has the same marks wherever it begins, so the marks of a text that is
put together from pieces are known piece by piece.
-/

namespace DicePool.Token

variable {k : TokenKind} {p s w before : List Char} {ts : List Token}

/-- A token without its position: whether it touches what stands before it, its kind and its
text. -/
structure Mark where
  touches : Bool
  kind : TokenKind
  text : List Char
  deriving DecidableEq

/-- The marks of tokens that stand behind a position. -/
def marks : Nat → List Token → List Mark
  | _, [] => []
  | o, t :: ts => ⟨t.span.start = o, t.kind, t.text⟩ :: marks t.span.stop ts

/-- The marks of a text. -/
def marksOf (s : List Char) : List Mark := marks 0 (scan s)

/-- Whether some mark and those after it satisfy a property. -/
def Somewhere (P : Mark → List Mark → Prop) : List Mark → Prop
  | [] => False
  | m :: ms => P m ms ∨ Somewhere P ms

private theorem marks_scanFrom_eq (o o' : Nat) (h : scanFrom 0 o s = ts) :
    marks o' (scanFrom 0 o' s) = marks o ts := by
  induction ts generalizing o o' s with
  | nil =>
    rw [scanFrom_eq_nil_iff.mpr (scanFrom_eq_nil_iff.mp h)]
    rfl
  | cons t ts ih =>
    obtain ⟨before, s, rfl, blank, piece, span, rest⟩ := scanFrom_eq_cons.mp h
    rw [List.append_assoc, scanFrom_separators blank, scanFrom_piece piece, marks, marks,
      ih _ _ rest]
    simp [span]

/-- A text has the same marks wherever it begins. -/
theorem marks_scanFrom (o : Nat) (s : List Char) : marks o (scanFrom 0 o s) = marksOf s :=
  marks_scanFrom_eq 0 o rfl

/-- The tokens ahead have the marks of the text ahead. -/
theorem Rest.marks_eq {cs : List Char} {o : Nat} (h : Rest cs o s ts) : marks o ts = marksOf s := by
  rw [← h.scanned, marks_scanFrom]

/-- A piece is the first mark of a text that begins with it after separators. -/
theorem marksOf_piece (blank : ∀ c ∈ before, isSeparator c = true) (piece : Piece k p s) :
    marksOf (before ++ (p ++ s)) = ⟨before.isEmpty, k, p⟩ :: marksOf s := by
  have start : decide (0 + Text.byteLength before = 0) = before.isEmpty := by
    cases before with
    | nil => rfl
    | cons c before =>
      have pos : Text.byteLength (c :: before) ≠ 0 :=
        mt Text.byteLength_eq_zero_iff.mp (List.cons_ne_nil c before)
      simpa using pos
  rw [marksOf, scan, scanFrom_separators blank, scanFrom_piece piece, marks, marks_scanFrom, start]

/-- A piece is the first mark of a text that begins with it. -/
theorem marksOf_append_piece (piece : Piece k p s) :
    marksOf (p ++ s) = ⟨true, k, p⟩ :: marksOf s :=
  marksOf_piece (List.forall_mem_nil _) piece

/-- Separators have no marks. -/
theorem marksOf_separators (blank : ∀ c ∈ s, isSeparator c = true) : marksOf s = [] := by
  rw [marksOf, scan, scanFrom_eq_nil_iff.mpr blank]
  rfl

/-- A text has only separators or begins with a piece. -/
theorem marksOf_cases (s : List Char) :
    (∀ c ∈ s, isSeparator c = true) ∨
      ∃ before k p s', s = before ++ (p ++ s') ∧ (∀ c ∈ before, isSeparator c = true) ∧
        Piece k p s' := by
  cases h : scanFrom 0 0 s with
  | nil => exact .inl (scanFrom_eq_nil_iff.mp h)
  | cons t ts =>
    obtain ⟨before, s', rfl, blank, piece, _⟩ := scanFrom_eq_cons.mp h
    exact .inr ⟨before, t.kind, t.text, s', List.append_assoc _ _ _, blank, piece⟩

/-- Behind separators nothing touches what stands before them. -/
theorem marksOf_append (blank : ∀ c ∈ before, isSeparator c = true) (ne : before ≠ [])
    (s : List Char) :
    marksOf (before ++ s) =
      (marksOf s).head?.toList.map (fun m ↦ { m with touches := false }) ++ (marksOf s).tail := by
  rcases marksOf_cases s with all | ⟨before', k, p, s', rfl, blank', piece⟩
  · rw [marksOf_separators all, marksOf_separators (List.forall_mem_append.mpr ⟨blank, all⟩)]
    rfl
  · rw [← List.append_assoc, marksOf_piece (List.forall_mem_append.mpr ⟨blank, blank'⟩) piece,
      marksOf_piece blank' piece]
    simp [ne]

/-- Digits become one number with the digits that follow them. -/
theorem marksOf_digits (ne : w ≠ []) (digits : ∀ c ∈ w, c.isDigit = true) :
    (marksOf (w ++ s) = ⟨true, .integer, w⟩ :: marksOf s ∧ ∀ c ∈ s.head?, c.isDigit = false) ∨
      ∃ m ms, marksOf s = ⟨true, .integer, m⟩ :: ms ∧
        marksOf (w ++ s) = ⟨true, .integer, w ++ m⟩ :: ms := by
  have stop : ∀ c ∈ (s.dropWhile Char.isDigit).head?, c.isDigit = false := fun c hc ↦ by
    simpa [Option.mem_def.mp hc] using List.head?_dropWhile_not Char.isDigit s
  have all : ∀ c ∈ s.takeWhile Char.isDigit, c.isDigit = true := fun c hc ↦
    List.mem_takeWhile_imp hc
  have split := List.takeWhile_append_dropWhile (p := Char.isDigit) (l := s)
  generalize s.takeWhile Char.isDigit = m at all split
  generalize s.dropWhile Char.isDigit = r at stop split
  subst split
  cases m with
  | nil => exact .inl ⟨marksOf_append_piece (.of_digits ne digits stop), stop⟩
  | cons c m =>
    have more : w ++ c :: m ≠ [] := by simp
    refine .inr ⟨c :: m, marksOf r, ?_, ?_⟩
    · exact marksOf_append_piece (.of_digits (List.cons_ne_nil c m) all stop)
    · rw [← List.append_assoc]
      exact marksOf_append_piece (.of_digits more (List.forall_mem_append.mpr ⟨digits, all⟩) stop)

end DicePool.Token
