import DicePool.Text.Span
import Mathlib.Data.String.Basic

/-!
# Cutting at byte positions

A text cut at the length of its first part falls into its parts, and each part stands between
characters.
-/

namespace DicePool.Text

variable {a b : List Char}

/-- Only the empty text has no bytes. -/
theorem byteLength_eq_zero_iff {cs : List Char} : byteLength cs = 0 ↔ cs = [] := by
  cases cs with
  | nil => simp [byteLength]
  | cons c cs =>
    have pos := c.utf8Size_pos
    simp [byteLength]
    omega

/-- The bytes of the first part are taken. -/
theorem takeBytes_append (a b : List Char) : takeBytes (byteLength a) (a ++ b) = a := by
  induction a with
  | nil => cases b <;> rfl
  | cons c a ih =>
    have pos := c.utf8Size_pos
    rw [List.cons_append, takeBytes, byteLength, if_neg (by omega), Nat.add_sub_cancel_left, ih]

/-- The bytes of the first part are dropped. -/
theorem dropBytes_append (a b : List Char) : dropBytes (byteLength a) (a ++ b) = b := by
  induction a with
  | nil => cases b <;> rfl
  | cons c a ih =>
    have pos := c.utf8Size_pos
    rw [List.cons_append, dropBytes, byteLength, if_neg (by omega), Nat.add_sub_cancel_left, ih]

/-- Bytes beyond the first part are taken from the rest. -/
theorem takeBytes_add (a b : List Char) (n : Nat) :
    takeBytes (byteLength a + n) (a ++ b) = a ++ takeBytes n b := by
  induction a with
  | nil => rw [byteLength, Nat.zero_add, List.nil_append, List.nil_append]
  | cons c a ih =>
    have pos := c.utf8Size_pos
    have left : c.utf8Size + byteLength a + n - c.utf8Size = byteLength a + n := by omega
    rw [List.cons_append, takeBytes, byteLength, if_neg (by omega), left, ih, List.cons_append]

/-- Bytes beyond the first part are dropped from the rest. -/
theorem dropBytes_add (a b : List Char) (n : Nat) :
    dropBytes (byteLength a + n) (a ++ b) = dropBytes n b := by
  induction a with
  | nil => rw [byteLength, Nat.zero_add, List.nil_append]
  | cons c a ih =>
    have pos := c.utf8Size_pos
    have left : c.utf8Size + byteLength a + n - c.utf8Size = byteLength a + n := by omega
    rw [List.cons_append, dropBytes, byteLength, if_neg (by omega), left, ih]

/-- What stands before all edits stays. -/
theorem spliceFrom_append {o : Nat} {edits : List (Span × List Char)}
    (h : ∀ e ∈ edits.head?, o + byteLength a ≤ e.1.start ∧ e.1.start ≤ e.1.stop) :
    spliceFrom o (a ++ b) edits = a ++ spliceFrom (o + byteLength a) b edits := by
  cases edits with
  | nil => rfl
  | cons e edits =>
    obtain ⟨span, new⟩ := e
    obtain ⟨start, stop⟩ := h _ rfl
    simp only at start stop
    have first : span.start - o = byteLength a + (span.start - (o + byteLength a)) := by omega
    have last : span.stop - o = byteLength a + (span.stop - (o + byteLength a)) := by omega
    rw [spliceFrom, spliceFrom, first, last, takeBytes_add, dropBytes_add]
    simp only [List.append_assoc]

/-- An edit replaces what stands at its span. -/
theorem spliceFrom_edit (o : Nat) (a old new b : List Char) (edits : List (Span × List Char)) :
    spliceFrom o (a ++ old ++ b)
        ((⟨o + byteLength a, o + byteLength (a ++ old)⟩, new) :: edits) =
      a ++ new ++ spliceFrom (o + byteLength (a ++ old)) b edits := by
  have first : takeBytes (byteLength a) (a ++ old ++ b) = a := by
    rw [List.append_assoc, takeBytes_append]
  simp only [spliceFrom, Nat.add_sub_cancel_left, dropBytes_append, first]

/-- What a text consists of after edits has been there or is new. -/
theorem mem_or_mem_of_mem_spliceFrom {o : Nat} {cs : List Char} {edits : List (Span × List Char)}
    {c : Char} (h : c ∈ spliceFrom o cs edits) : c ∈ cs ∨ ∃ e ∈ edits, c ∈ e.2 := by
  induction edits generalizing o cs with
  | nil => exact .inl h
  | cons e edits ih =>
    rw [List.exists_mem_cons_iff]
    rcases List.mem_append.mp h with h | h
    · refine (List.mem_append.mp h).imp (fun taken ↦ ?_) .inl
      rw [← takeBytes_append_dropBytes (e.1.start - o) cs]
      exact List.mem_append_left _ taken
    · refine (ih h).imp (fun dropped ↦ ?_) .inr
      rw [← takeBytes_append_dropBytes (e.1.stop - o) cs]
      exact List.mem_append_right _ dropped

/-- The slice at the place of a part is that part. -/
theorem slice_append (a b c : List Char) :
    slice (a ++ b ++ c) ⟨byteLength a, byteLength a + byteLength b⟩ = b := by
  simp only [slice, Nat.add_sub_cancel_left, List.append_assoc]
  rw [dropBytes_append, takeBytes_append]

/-- Whether a part of a text stands at a span, which begins and ends between characters. -/
structure StandsAt (text : String) (span : Span) (part : String) : Prop where
  ordered : span.start ≤ span.stop
  inside : span.stop ≤ text.utf8ByteSize
  start : String.Pos.Raw.IsValid text ⟨span.start⟩
  stop : String.Pos.Raw.IsValid text ⟨span.stop⟩
  part : part = String.Pos.Raw.extract text ⟨span.start⟩ ⟨span.stop⟩

/-- Lengths in bytes are those of UTF-8. -/
theorem byteLength_eq_utf8Len (cs : List Char) : byteLength cs = String.utf8Len cs := by
  induction cs with
  | nil => rfl
  | cons c cs ih => rw [byteLength, String.utf8Len_cons, ih, Nat.add_comm]

private theorem isValid_byteLength (a b : List Char) :
    String.Pos.Raw.IsValid (String.ofList (a ++ b)) ⟨byteLength a⟩ := by
  refine String.Pos.Raw.isValid_iff_exists_append.mpr
    ⟨String.ofList a, String.ofList b, String.ofList_append, ?_⟩
  rw [String.rawEndPos, String.utf8ByteSize_ofList, byteLength_eq_utf8Len]

/-- Each part of a text stands behind the bytes of what is before it. -/
theorem standsAt_of_append {text : String} {a m b : List Char} (h : text.toList = a ++ m ++ b) :
    StandsAt text ⟨byteLength a, byteLength a + byteLength m⟩ (String.ofList m) := by
  obtain rfl : text = String.ofList (a ++ m ++ b) := by rw [← h, String.ofList_toList]
  have start := isValid_byteLength a (m ++ b)
  have stop := isValid_byteLength (a ++ m) b
  rw [← List.append_assoc] at start
  rw [byteLength_append] at stop
  refine ⟨Nat.le_add_right _ _, stop.le_rawEndPos, start, stop, ?_⟩
  simp only [byteLength_eq_utf8Len]
  exact (String.extract_of_valid a m b).symm

/-- Whether the text `s`, which begins at a position, becomes another one where the text beside each
span is written in its place, while all other characters stay. -/
inductive Replaced : Nat → List Char → List (Span × List Char) → List Char → Prop
  | stay (o : Nat) (s : List Char) : Replaced o s [] s
  | write {o : Nat} {a old s s' : List Char} {edits : List (Span × List Char)} (new : List Char)
      (rest : Replaced (o + byteLength (a ++ old)) s edits s') :
      Replaced o (a ++ (old ++ s)) ((⟨o + byteLength a, o + byteLength (a ++ old)⟩, new) :: edits)
        (a ++ (new ++ s'))

namespace Replaced

variable {o : Nat} {s s' : List Char} {edits : List (Span × List Char)}

/-- What stands before all edits stays. -/
theorem append_left (a : List Char) (h : Replaced (o + byteLength a) s edits s') :
    Replaced o (a ++ s) edits (a ++ s') := by
  cases h with
  | stay => exact .stay o (a ++ s)
  | @write _ b old s s' edits new rest =>
    simp only [Nat.add_assoc, ← byteLength_append] at rest ⊢
    have step : Replaced o ((a ++ b) ++ (old ++ s))
        ((⟨o + byteLength (a ++ b), o + byteLength (a ++ b ++ old)⟩, new) :: edits)
        ((a ++ b) ++ (new ++ s')) :=
      .write new (by simpa only [List.append_assoc] using rest)
    simpa only [List.append_assoc] using step

/-- A text becomes what it is spliced to. -/
theorem spliceFrom_eq (h : Replaced o s edits s') : spliceFrom o s edits = s' := by
  induction h with
  | stay => rfl
  | @write o a old s s' edits new rest ih =>
    rw [← List.append_assoc a old, spliceFrom_edit, ih, List.append_assoc]

/-- The edits stand one after the other. -/
theorem pairwise (h : Replaced o s edits s') :
    (∀ e ∈ edits, o ≤ e.1.start) ∧ edits.Pairwise fun e e' ↦ e.1.stop ≤ e'.1.start := by
  induction h with
  | stay => simp
  | @write o a old s s' edits new rest ih =>
    refine ⟨List.forall_mem_cons.mpr ⟨Nat.le_add_right _ _, fun e he ↦ ?_⟩,
      List.pairwise_cons.mpr ⟨fun e he ↦ ih.1 e he, ih.2⟩⟩
    exact Nat.le_trans (Nat.le_add_right _ _) (ih.1 e he)

end Replaced

end DicePool.Text
