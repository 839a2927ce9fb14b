import DicePool.Proofs.Text.Span
import DicePool.Proofs.Token.Piece

/-!
# Scanned tokens

The tokens of a text are its pieces in order, each where it stands, with separators between them.
Tokens without gaps between them are scanned again from their texts alone, at other places.
-/

namespace DicePool.Token

variable {o a b : Nat} {cs s before : List Char} {t : Token} {ts ts₁ ts₂ : List Token}

/-- Separators are passed over. -/
theorem scanFrom_separators (h : ∀ c ∈ before, isSeparator c = true) :
    scanFrom 0 o (before ++ s) = scanFrom 0 (o + Text.byteLength before) s := by
  induction before generalizing o with
  | nil => rfl
  | cons c before ih =>
    rw [List.forall_mem_cons] at h
    rw [List.cons_append, scanFrom, if_pos h.1, ih h.2, Text.byteLength, Nat.add_assoc]

/-- A piece becomes a token. -/
theorem scanFrom_piece {k : TokenKind} {p : List Char} (h : Piece k p s) :
    scanFrom 0 o (p ++ s) =
      ⟨k, ⟨o, o + Text.byteLength p⟩, p⟩ :: scanFrom 0 (o + Text.byteLength p) s := by
  obtain ⟨⟨c, hc, visible⟩, first⟩ := h
  obtain ⟨rest, rfl⟩ := List.head?_eq_some_iff.mp hc
  have length : (c :: rest).length - 1 = rest.length := rfl
  rw [List.cons_append] at first ⊢
  rw [scanFrom, if_neg (by simp [visible]), first]
  simp only [length, Text.byteLength, ← Nat.add_assoc]
  rw [scanFrom_covered, List.take_left, List.drop_left]

/-- What is not a separator begins a piece. -/
theorem exists_piece {c : Char} (hc : isSeparator c = false) (cs : List Char) :
    ∃ k p s, c :: cs = p ++ s ∧ Piece k p s := by
  obtain ⟨k, p, first⟩ : ∃ k p, firstPiece (c :: cs) = (k, p) := ⟨_, _, rfl⟩
  obtain ⟨ne, s, same⟩ : p ≠ [] ∧ p <+: c :: cs := by
    by_cases hk : k = .unrecognized
    · have piece := (firstPiece_eq_unrecognized_iff.mp (hk ▸ first)).1
      obtain rfl := congrArg Prod.snd piece
      refine ⟨List.cons_ne_nil _ _, List.cons_prefix_cons.mpr ⟨rfl, ?_⟩⟩
      split
      · exact List.takeWhile_prefix _
      · exact List.nil_prefix
    · have longest := (firstPiece_eq_iff hk).mp first
      exact ⟨longest.form.ne_nil, longest.fits⟩
  obtain ⟨d, rest, rfl⟩ := List.exists_cons_of_ne_nil ne
  obtain ⟨rfl, _⟩ := List.cons.inj same
  exact ⟨k, d :: rest, s, same.symm, ⟨d, rfl, hc⟩, same ▸ first⟩

/-- A scan whose first token is given. -/
theorem scanFrom_eq_cons : scanFrom 0 o cs = t :: ts ↔
    ∃ before s, cs = before ++ t.text ++ s ∧ (∀ c ∈ before, isSeparator c = true) ∧
      Piece t.kind t.text s ∧
      t.span = ⟨o + Text.byteLength before,
        o + Text.byteLength before + Text.byteLength t.text⟩ ∧
      scanFrom 0 t.span.stop s = ts := by
  constructor
  · intro h
    induction cs generalizing o with
    | nil => simp [scanFrom] at h
    | cons c cs ih =>
      by_cases hc : isSeparator c = true
      · rw [scanFrom, if_pos hc] at h
        obtain ⟨before, s, rfl, blank, piece, span, rest⟩ := ih h
        refine ⟨c :: before, s, rfl, List.forall_mem_cons.mpr ⟨hc, blank⟩, piece, ?_, rest⟩
        simpa [Text.byteLength, Nat.add_assoc] using span
      · obtain ⟨k, p, s, same, piece⟩ := exists_piece (by simpa using hc) cs
        rw [same, scanFrom_piece piece] at h
        obtain ⟨rfl, rest⟩ := List.cons.inj h
        exact ⟨[], s, same, by simp, piece, rfl, rest⟩
  · rintro ⟨before, s, rfl, blank, piece, span, rfl⟩
    have stop := congrArg Span.stop span
    rw [List.append_assoc, scanFrom_separators blank, scanFrom_piece piece, ← span, stop]

/-- A text of separators has no tokens. -/
theorem scanFrom_eq_nil_iff : scanFrom 0 o cs = [] ↔ ∀ c ∈ cs, isSeparator c = true := by
  induction cs generalizing o with
  | nil => simp [scanFrom]
  | cons c cs ih =>
    by_cases hc : isSeparator c = true
    · rw [scanFrom, if_pos hc, ih, List.forall_mem_cons]
      simp [hc]
    · obtain ⟨k, p, s, same, piece⟩ := exists_piece (by simpa using hc) cs
      rw [same, scanFrom_piece piece, ← same]
      simp [hc]

/-- Whether a scan of a text that has come to a position has the given text and tokens ahead. -/
structure Rest (cs : List Char) (o : Nat) (s : List Char) (ts : List Token) : Prop where
  place : ∃ front, cs = front ++ s ∧ o = Text.byteLength front
  scanned : scanFrom 0 o s = ts

namespace Rest

/-- At its start a scan has the whole text ahead. -/
theorem whole (cs : List Char) : Rest cs 0 cs (scan cs) := ⟨⟨[], rfl, rfl⟩, rfl⟩

/-- What is ahead is what stands behind the position. -/
theorem dropBytes (h : Rest cs o s ts) : Text.dropBytes o cs = s := by
  obtain ⟨front, rfl, rfl⟩ := h.place
  exact Text.dropBytes_append front s

/-- The scan goes on behind the next token. -/
theorem next (h : Rest cs o s (t :: ts)) :
    ∃ before s', s = before ++ (t.text ++ s') ∧ (∀ c ∈ before, isSeparator c = true) ∧
      Piece t.kind t.text s' ∧
      t.span = ⟨o + Text.byteLength before, o + Text.byteLength (before ++ t.text)⟩ ∧
      Rest cs t.span.stop s' ts := by
  obtain ⟨⟨front, rfl, place⟩, scanned⟩ := h
  obtain ⟨before, s', rfl, blank, piece, span, rest⟩ := scanFrom_eq_cons.mp scanned
  rw [Nat.add_assoc, ← Text.byteLength_append] at span
  refine ⟨before, s', List.append_assoc _ _ _, blank, piece, span, ⟨?_, rest⟩⟩
  exact ⟨front ++ (before ++ t.text), by simp, by rw [span, place, Text.byteLength_append front]⟩

end Rest

/-- Whether tokens follow each other without gaps from one position to another. -/
def Gapless : Nat → Nat → List Token → Prop
  | a, b, [] => a = b
  | a, b, t :: ts => t.span.start = a ∧ Gapless t.span.stop b ts

/-- A gapless row is cut anywhere. -/
theorem gapless_append : Gapless a b (ts₁ ++ ts₂) ↔ ∃ m, Gapless a m ts₁ ∧ Gapless m b ts₂ := by
  induction ts₁ generalizing a with
  | nil => simp [Gapless]
  | cons t ts₁ ih => simp [Gapless, ih, and_assoc]

/-- A gapless row has one end. -/
theorem Gapless.stop_unique {b' : Nat} (h : Gapless a b ts) (h' : Gapless a b' ts) : b = b' := by
  induction ts generalizing a with
  | nil => exact h.symm.trans h'
  | cons t ts ih => exact ih h.2 h'.2

/-- A gapless row ends where its last token does. -/
theorem Gapless.stop_getLast (h : Gapless a b ts) (ht : t ∈ ts.getLast?) : t.span.stop = b := by
  obtain ⟨init, rfl⟩ := List.getLast?_eq_some_iff.mp ht
  obtain ⟨m, _, _, last⟩ := gapless_append.mp h
  exact last

/-- Tokens stand where their texts do, from left to right. -/
theorem span_of_mem_scanFrom (h : scanFrom 0 o cs = ts) :
    (∀ t ∈ ts, o ≤ t.span.start ∧ t.span.start < t.span.stop) ∧
      ts.Pairwise fun t t' ↦ t.span.stop ≤ t'.span.start := by
  induction ts generalizing o cs with
  | nil => simp
  | cons t ts ih =>
    obtain ⟨before, s, rfl, _, piece, span, rest⟩ := scanFrom_eq_cons.mp h
    obtain ⟨bounds, ascending⟩ := ih rest
    have pos : 0 < Text.byteLength t.text :=
      Nat.pos_of_ne_zero (mt Text.byteLength_eq_zero_iff.mp piece.ne_nil)
    have start : t.span.start = o + Text.byteLength before := by rw [span]
    have stop : t.span.stop = o + Text.byteLength before + Text.byteLength t.text := by rw [span]
    constructor
    · rw [List.forall_mem_cons]
      refine ⟨by omega, fun t' ht' ↦ ?_⟩
      have later := bounds t' ht'
      omega
    · exact List.pairwise_cons.mpr ⟨fun t' ht' ↦ (bounds t' ht').1, ascending⟩

/-- The kind and the text of a token, wherever it stands. -/
def lexeme (t : Token) : TokenKind × List Char := (t.kind, t.text)

/-- Whether each token of a row is a piece before the texts of those after it and then `s`. -/
def Pieces (s : List Char) : List Token → Prop
  | [] => True
  | t :: ts => Piece t.kind t.text (ts.flatMap text ++ s) ∧ Pieces s ts

/-- The tokens of a row one after the other from a position on. -/
def place : Nat → List Token → List Token
  | _, [] => []
  | o, t :: ts =>
    { t with span := ⟨o, o + Text.byteLength t.text⟩ } :: place (o + Text.byteLength t.text) ts

/-- A token is the same piece wherever it stands. -/
theorem map_lexeme_place (o : Nat) (ts : List Token) : (place o ts).map lexeme = ts.map lexeme := by
  induction ts generalizing o with
  | nil => rfl
  | cons t ts ih => rw [place, List.map_cons, List.map_cons, ih, lexeme, lexeme]

/-- Placed tokens have no gaps. -/
theorem gapless_place (o : Nat) (ts : List Token) :
    Gapless o (o + Text.byteLength (ts.flatMap text)) (place o ts) := by
  induction ts generalizing o with
  | nil => rfl
  | cons t ts ih =>
    have rest := ih (o + Text.byteLength t.text)
    rw [Nat.add_assoc, ← Text.byteLength_append] at rest
    exact ⟨rfl, rest⟩

/-- The texts of pieces are scanned as these pieces. -/
theorem scanFrom_pieces (h : Pieces s ts) :
    scanFrom 0 o (ts.flatMap text ++ s) =
      place o ts ++ scanFrom 0 (o + Text.byteLength (ts.flatMap text)) s := by
  induction ts generalizing o with
  | nil => rfl
  | cons t ts ih =>
    rw [List.flatMap_cons, List.append_assoc, scanFrom_piece h.1, ih h.2, place,
      Text.byteLength_append, Nat.add_assoc, List.cons_append]

/-- Cutting the text after pieces does not change the pieces. -/
theorem Pieces.cut {s' : List Char} (h : Pieces s ts) (hs : s' <+: s) : Pieces s' ts := by
  induction ts with
  | nil => trivial
  | cons t ts ih => exact ⟨h.1.cut ((List.prefix_append_right_inj _).mpr hs), ih h.2⟩

/-- A gapless row of scanned tokens: the separators before it, the text of the row itself, which has
the same tokens on its own, and what stands after it. -/
theorem scanFrom_gapless (h : scanFrom 0 o cs = ts₁ ++ ts₂) (hg : Gapless a b ts₁)
    (ne : ts₁ ≠ []) :
    ∃ before after, cs = before ++ ts₁.flatMap text ++ after ∧
      (∀ c ∈ before, isSeparator c = true) ∧ a = o + Text.byteLength before ∧
      b = a + Text.byteLength (ts₁.flatMap text) ∧ Pieces after ts₁ ∧
      scanFrom 0 b after = ts₂ := by
  induction ts₁ generalizing o cs a with
  | nil => contradiction
  | cons t ts₁ ih =>
    obtain ⟨before, s, rfl, blank, piece, span, rest⟩ := scanFrom_eq_cons.mp h
    obtain ⟨rfl, hg⟩ := hg
    have start : t.span.start = o + Text.byteLength before := by rw [span]
    have stop : t.span.stop = t.span.start + Text.byteLength t.text := by rw [span]
    cases ts₁ with
    | nil =>
      obtain rfl : t.span.stop = b := hg
      exact ⟨before, s, by simp, blank, start, by simp [stop], ⟨by simpa using piece, trivial⟩,
        rest⟩
    | cons t' ts₁ =>
      obtain ⟨gap, after, rfl, _, same, last, pieces, rest'⟩ := ih rest hg (List.cons_ne_nil _ _)
      -- the next token begins where this one ends, so nothing stands between them
      obtain rfl : gap = [] := Text.byteLength_eq_zero_iff.mp (by omega)
      refine ⟨before, after, by simp, blank, start, ?_, ⟨by simpa using piece, pieces⟩, rest'⟩
      rw [last, stop, List.flatMap_cons (x := t), Text.byteLength_append, Nat.add_assoc]

/-- A gapless row of tokens right ahead: its text stands there, and the scan goes on behind it. -/
theorem Rest.row (h : Rest cs o s (ts₁ ++ ts₂)) (hg : Gapless o b ts₁) :
    ∃ after, s = ts₁.flatMap text ++ after ∧ b = o + Text.byteLength (ts₁.flatMap text) ∧
      Pieces after ts₁ ∧ Rest cs b after ts₂ := by
  induction ts₁ generalizing o s with
  | nil =>
    obtain rfl : o = b := hg
    exact ⟨s, rfl, rfl, trivial, h⟩
  | cons t ts₁ ih =>
    obtain ⟨start, hg⟩ := hg
    obtain ⟨before, s, rfl, _, piece, span, rest⟩ := h.next
    -- the token begins where the scan is, so nothing stands before it
    have same : o + Text.byteLength before = o := (congrArg Span.start span).symm.trans start
    obtain rfl : before = [] := Text.byteLength_eq_zero_iff.mp (Nat.add_eq_left.mp same)
    obtain ⟨after, rfl, stop, pieces, rest'⟩ := ih rest hg
    have ends : t.span.stop = o + Text.byteLength t.text := by rw [span, List.nil_append]
    refine ⟨after, by simp, ?_, ⟨piece, pieces⟩, rest'⟩
    rw [stop, ends, List.flatMap_cons, Text.byteLength_append, Nat.add_assoc]

private theorem scanFrom_eq_append (h : scanFrom 0 o cs = ts₁ ++ ts₂) :
    ∃ before after, cs = before ++ after ∧
      scanFrom 0 (o + Text.byteLength before) after = ts₂ := by
  induction ts₁ generalizing o cs with
  | nil => exact ⟨[], cs, rfl, h⟩
  | cons t ts₁ ih =>
    obtain ⟨before, s, rfl, _, _, span, rest⟩ := scanFrom_eq_cons.mp h
    obtain ⟨before', after, rfl, rest'⟩ := ih rest
    refine ⟨before ++ t.text ++ before', after, by simp, ?_⟩
    rw [Text.byteLength_append, Text.byteLength_append, ← Nat.add_assoc, ← Nat.add_assoc]
    rwa [span] at rest'

/-- The text of a gapless row of scanned tokens stands where the row does. -/
theorem scan_gapless {ts₀ : List Token} (h : scan cs = ts₀ ++ (ts₁ ++ ts₂))
    (hg : Gapless a b ts₁) (ne : ts₁ ≠ []) :
    ∃ before after, cs = before ++ ts₁.flatMap text ++ after ∧ a = Text.byteLength before ∧
      b = a + Text.byteLength (ts₁.flatMap text) ∧ Pieces after ts₁ := by
  obtain ⟨before, cs, rfl, rest⟩ := scanFrom_eq_append h
  obtain ⟨before', after, rfl, _, start, stop, pieces, _⟩ := scanFrom_gapless rest hg ne
  refine ⟨before ++ before', after, by simp, ?_, stop, pieces⟩
  rw [start, Text.byteLength_append, Nat.zero_add]

/-- Pieces have the same tokens on their own. -/
theorem scan_joined (h : Pieces s ts) : scan (joined ts).toList = place 0 ts := by
  have whole := scanFrom_pieces (o := 0) (h.cut List.nil_prefix)
  simpa [joined, scan, scanFrom] using whole

/-- Tokens of a gapless row stand between its ends. -/
theorem Gapless.bounds (h : Gapless a b ts) (hs : ∀ t ∈ ts, t.span.start < t.span.stop) :
    a ≤ b ∧ ∀ t ∈ ts, a ≤ t.span.start ∧ t.span.stop ≤ b := by
  induction ts generalizing a with
  | nil => exact ⟨Nat.le_of_eq h, by simp⟩
  | cons t ts ih =>
    rw [List.forall_mem_cons] at hs ⊢
    obtain ⟨rfl, rest⟩ := h
    obtain ⟨le, inside⟩ := ih rest hs.2
    refine ⟨by omega, ⟨Nat.le_refl _, le⟩, fun t' ht' ↦ ?_⟩
    have bound := inside t' ht'
    omega

/-- A token is found in one place only. -/
theorem eq_of_start_eq {before before' after after' : List Token} {t t' : Token}
    (h : scan cs = before ++ t :: after) (h' : scan cs = before' ++ t' :: after')
    (start : t.span.start = t'.span.start) : before = before' ∧ t :: after = t' :: after' := by
  have apart {l₁ l₂ : List Token} {x y : Token} (hl : scan cs = l₁ ++ l₂) (hx : x ∈ l₁)
      (hy : y ∈ l₂) : x.span.start < y.span.start := by
    obtain ⟨extent, ascending⟩ := span_of_mem_scanFrom hl
    have before := (List.pairwise_append.mp ascending).2.2 x hx y hy
    have pos := (extent x (List.mem_append_left _ hx)).2
    omega
  rcases List.append_eq_append_iff.mp (h.symm.trans h') with ⟨c, rfl, same⟩ | ⟨c, rfl, same⟩
  · cases c with
    | nil => exact ⟨(List.append_nil _).symm, same⟩
    | cons x c =>
      obtain ⟨rfl, _⟩ := List.cons.inj same
      have lt := apart h' (x := t) (y := t') (by simp) (by simp)
      omega
  · cases c with
    | nil => exact ⟨List.append_nil _, same.symm⟩
    | cons x c =>
      obtain ⟨rfl, _⟩ := List.cons.inj same
      have lt := apart h (x := t') (y := t) (by simp) (by simp)
      omega

end DicePool.Token
