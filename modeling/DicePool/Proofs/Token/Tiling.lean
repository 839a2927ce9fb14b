import DicePool.Proofs.Token.Scan

/-!
# Tilings of a text

The tokens of a text stand where their texts do, one after the other, and around them are only
separators. A recognized token is the longest piece that some pattern describes at its place, and
where a token is unrecognized no pattern describes anything. Every token is found again in its own
text, and a text has no more tokens than characters.
-/

namespace DicePool.Token

variable {o : Nat} {k : TokenKind} {a b cs p s w : List Char} {c : Char} {t : Token}

/-- Whether a pattern describes a piece: that of a kind of tokens, or that of a row of spaces, tabs
and line breaks. -/
def Matched (w : List Char) : Prop :=
  (∃ k, Form k w) ∨ w ≠ [] ∧ ∀ c ∈ w, c ∈ [' ', '\t', '\r', '\n']

/-- The separators are the space, the tab and both characters of a line break. -/
theorem isSeparator_iff : isSeparator c = true ↔ c ∈ [' ', '\t', '\r', '\n'] := by
  simp [isSeparator, or_assoc, or_comm (a := c = '\r')]

/-- Where a piece begins, no row of separators does. -/
private theorem Piece.form_of_matched (h : Piece k p s) (hw : Matched w) (fits : w <+: p ++ s) :
    ∃ k', Form k' w := by
  refine hw.resolve_right fun ⟨ne, separators⟩ ↦ ?_
  obtain ⟨c, hc, visible⟩ := h.visible
  obtain ⟨p, rfl⟩ := List.head?_eq_some_iff.mp hc
  obtain ⟨d, w, rfl⟩ := List.exists_cons_of_ne_nil ne
  obtain rfl : d = c := (List.cons_prefix_cons.mp fits).1
  rw [isSeparator_iff.mpr (separators d List.mem_cons_self)] at visible
  contradiction

/-- A recognized piece is the longest that a pattern describes. -/
theorem Piece.longest (h : Piece k p s) (hk : k ≠ .unrecognized) (hw : Matched w)
    (fits : w <+: p ++ s) : w.length ≤ p.length := by
  obtain ⟨k', form⟩ := h.form_of_matched hw fits
  exact ((firstPiece_eq_iff hk).mp h.first).longest k' w form fits

/-- No pattern describes anything where an unrecognized piece begins. -/
theorem Piece.unmatched (h : Piece .unrecognized p s) (hw : Matched w) : ¬w <+: p ++ s := by
  intro fits
  obtain ⟨k', form⟩ := h.form_of_matched hw fits
  exact (firstPiece_eq_unrecognized_iff.mp h.first).2 k' w form fits

/-- A piece is the only token of its own text. -/
theorem Piece.scan_eq (h : Piece k p s) : scan p = [⟨k, ⟨0, Text.byteLength p⟩, p⟩] := by
  have alone := scanFrom_piece (o := 0) (h.cut List.nil_prefix)
  simpa [scan, scanFrom] using alone

/-- A token is a piece of the text where it stands. -/
theorem exists_piece_of_mem_scan (h : t ∈ scan cs) :
    ∃ a b, cs = a ++ t.text ++ b ∧
      t.span = ⟨Text.byteLength a, Text.byteLength a + Text.byteLength t.text⟩ ∧
      Piece t.kind t.text b := by
  obtain ⟨before, after, tokens⟩ := List.append_of_mem h
  have row : scan cs = before ++ ([t] ++ after) := tokens
  have gapless : Gapless t.span.start t.span.stop [t] := ⟨rfl, rfl⟩
  obtain ⟨a, b, parts, start, stop, piece, _⟩ := scan_gapless row gapless (List.cons_ne_nil t [])
  rw [List.flatMap_singleton] at parts stop
  refine ⟨a, b, parts, ?_, by simpa using piece⟩
  rw [← start, ← stop]

private theorem split_of_append_eq {a b before s : List Char} {c : Char}
    (h : a ++ c :: b = before ++ s) :
    (∃ x, before = a ++ c :: x) ∨ ∃ x, a = before ++ x ∧ s = x ++ c :: b := by
  rcases List.append_eq_append_iff.mp h with ⟨x, rfl, same⟩ | ⟨x, rfl, same⟩
  · cases x with
    | nil => exact .inr ⟨[], by simp, same.symm⟩
    | cons d x =>
      obtain ⟨rfl, _⟩ := List.cons.inj same
      exact .inl ⟨x, rfl⟩
  · exact .inr ⟨x, rfl, same⟩

/-- A character that is no separator is part of a token. -/
theorem separator_or_covered (o : Nat) (a : List Char) (c : Char) (b : List Char) :
    isSeparator c = true ∨ ∃ t ∈ scanFrom 0 o (a ++ c :: b),
      t.span.start ≤ o + Text.byteLength a ∧ o + Text.byteLength a < t.span.stop := by
  generalize tokens : scanFrom 0 o (a ++ c :: b) = ts
  induction ts generalizing o a with
  | nil => exact .inl (scanFrom_eq_nil_iff.mp tokens c (by simp))
  | cons t ts ih =>
    obtain ⟨before, s, same, blank, _, span, rest⟩ := scanFrom_eq_cons.mp tokens
    rw [List.append_assoc] at same
    -- the character stands before the token, in it, or behind it
    rcases split_of_append_eq same with ⟨x, rfl⟩ | ⟨x, rfl, behind⟩
    · exact .inl (blank c (by simp))
    rcases split_of_append_eq behind.symm with ⟨y, inside⟩ | ⟨y, rfl, rfl⟩
    · refine .inr ⟨t, List.mem_cons_self, ?_⟩
      have pos := c.utf8Size_pos
      simp only [span, inside, Text.byteLength_append, Text.byteLength]
      omega
    · rcases ih _ y rest with separator | ⟨t', ht', covered⟩
      · exact .inl separator
      · refine .inr ⟨t', List.mem_cons_of_mem t ht', ?_⟩
        simp only [span, Text.byteLength_append] at covered ⊢
        omega

/-- A text has no more tokens than characters. -/
theorem length_scanFrom_le (o : Nat) (cs : List Char) : (scanFrom 0 o cs).length ≤ cs.length := by
  generalize tokens : scanFrom 0 o cs = ts
  induction ts generalizing o cs with
  | nil => exact Nat.zero_le _
  | cons t ts ih =>
    obtain ⟨before, s, rfl, _, piece, _, rest⟩ := scanFrom_eq_cons.mp tokens
    have pos := List.length_pos_iff.mpr piece.ne_nil
    have later := ih _ s rest
    simp only [List.length_append, List.length_cons]
    omega

/-- Whether tokens tile a text: they stand where their texts do and ascend, a character outside of
all of them is a separator, a recognized one is of the kind whose pattern describes it and the
longest piece that a pattern describes at its place, and where an unrecognized one begins no pattern
describes anything. -/
structure Tiling (text : String) (ts : List Token) : Prop where
  stands : ∀ t ∈ ts, Text.StandsAt text t.span (String.ofList t.text)
  nonempty : ∀ t ∈ ts, t.span.start < t.span.stop
  ascending : ts.Pairwise fun t t' ↦ t.span.stop ≤ t'.span.start
  between : ∀ a c b, text.toList = a ++ c :: b →
    (∃ t ∈ ts, t.span.start ≤ Text.byteLength a ∧ Text.byteLength a < t.span.stop) ∨
      c ∈ [' ', '\t', '\r', '\n']
  described : ∀ t ∈ ts, t.kind ≠ .unrecognized → ∀ k, Form k t.text ↔ k = t.kind
  fits : ∀ t ∈ ts, t.text <+: Text.dropBytes t.span.start text.toList
  longest : ∀ t ∈ ts, t.kind ≠ .unrecognized → ∀ w, Matched w →
    w <+: Text.dropBytes t.span.start text.toList → w.length ≤ t.text.length
  unmatched : ∀ t ∈ ts, t.kind = .unrecognized → ∀ w, Matched w →
    ¬w <+: Text.dropBytes t.span.start text.toList

/-- Every text is tiled by its tokens, which are no more than its characters, and each token is
found again as the only one of its own text. -/
theorem scan_tiles (text : String) :
    Tiling text (scan text.toList) ∧ (scan text.toList).length ≤ text.length ∧
      ∀ t ∈ scan text.toList, scan t.text = [⟨t.kind, ⟨0, Text.byteLength t.text⟩, t.text⟩] := by
  have ahead {t : Token} (ht : t ∈ scan text.toList) :
      ∃ s, Text.dropBytes t.span.start text.toList = t.text ++ s ∧ Piece t.kind t.text s := by
    obtain ⟨a, s, parts, span, piece⟩ := exists_piece_of_mem_scan ht
    refine ⟨s, ?_, piece⟩
    rw [parts, span, List.append_assoc, Text.dropBytes_append]
  obtain ⟨extent, ascending⟩ := span_of_mem_scanFrom (rfl : scan text.toList = _)
  refine ⟨⟨fun t ht ↦ ?_, fun t ht ↦ (extent t ht).2, ascending, fun a c b parts ↦ ?_,
    fun t ht hk k ↦ ?_, fun t ht ↦ ?_, fun t ht hk w hw ↦ ?_, fun t ht hk w hw ↦ ?_⟩, ?_,
    fun t ht ↦ ?_⟩
  · obtain ⟨a, s, parts, span, _⟩ := exists_piece_of_mem_scan ht
    rw [span]
    exact Text.standsAt_of_append parts
  · rcases separator_or_covered 0 a c b with separator | covered
    · exact .inr (isSeparator_iff.mp separator)
    · rw [← parts, Nat.zero_add] at covered
      exact .inl covered
  · obtain ⟨_, _, piece⟩ := ahead ht
    have form := piece.form hk
    exact ⟨fun form' ↦ form'.functional form, fun same ↦ same ▸ form⟩
  · obtain ⟨s, same, _⟩ := ahead ht
    exact ⟨s, same.symm⟩
  · obtain ⟨s, same, piece⟩ := ahead ht
    rw [same]
    exact piece.longest hk hw
  · obtain ⟨s, same, piece⟩ := ahead ht
    rw [same]
    exact (hk ▸ piece).unmatched hw
  · exact length_scanFrom_le 0 text.toList
  · obtain ⟨_, _, piece⟩ := ahead ht
    exact piece.scan_eq

end DicePool.Token
