/-!
# Spans of a text

Positions count UTF-8 bytes. A span is a half-open range of positions; a text is cut and edited
at positions that fall between characters.
-/

namespace DicePool

/-- A half-open range of byte positions. -/
structure Span where
  start : Nat
  stop : Nat
  deriving Repr, DecidableEq

namespace Text

/-- The number of UTF-8 bytes of a text. -/
def byteLength : List Char → Nat
  | [] => 0
  | c :: cs => c.utf8Size + byteLength cs

/-- The characters of a text that start before byte `n`. -/
def takeBytes : Nat → List Char → List Char
  | _, [] => []
  | n, c :: cs => if n = 0 then [] else c :: takeBytes (n - c.utf8Size) cs

/-- The characters of a text that start at byte `n` or later. -/
def dropBytes : Nat → List Char → List Char
  | _, [] => []
  | n, c :: cs => if n = 0 then c :: cs else dropBytes (n - c.utf8Size) cs

/-- The part of a text inside a span. -/
def slice (cs : List Char) (span : Span) : List Char :=
  takeBytes (span.stop - span.start) (dropBytes span.start cs)

/-- The text `cs`, which begins at position `offset`, with each of the ascending, disjoint spans
replaced by the text beside it. -/
def spliceFrom : Nat → List Char → List (Span × List Char) → List Char
  | _, cs, [] => cs
  | offset, cs, (span, new) :: edits =>
    takeBytes (span.start - offset) cs ++ new
      ++ spliceFrom span.stop (dropBytes (span.stop - offset) cs) edits

/-- The text with each of the ascending, disjoint spans replaced by the text beside it. -/
def splice (cs : List Char) (edits : List (Span × List Char)) : List Char :=
  spliceFrom 0 cs edits

/-- Both parts of a text cut at a position give the text again. -/
theorem takeBytes_append_dropBytes (n : Nat) (cs : List Char) :
    takeBytes n cs ++ dropBytes n cs = cs := by
  induction cs generalizing n with
  | nil => rfl
  | cons c cs ih =>
    unfold takeBytes dropBytes
    split
    · rfl
    · simp [ih]

/-- Lengths in bytes add up. -/
theorem byteLength_append (cs ds : List Char) :
    byteLength (cs ++ ds) = byteLength cs + byteLength ds := by
  induction cs with
  | nil => simp [byteLength]
  | cons c cs ih => simp [byteLength, ih, Nat.add_assoc]

/-- Without edits a text stays as it is. -/
theorem splice_nil (cs : List Char) : splice cs [] = cs := rfl

end Text
end DicePool
