import DicePool.Token

/-!
# Cutting a text into tokens

At each position the longest piece that has the form of some kind becomes a token. Spaces, tabs
and line breaks separate tokens. Where no form fits, one character is unrecognized; an opening
brace that is not closed takes the text up to the next opening brace with it.
-/

namespace DicePool.Token

/-- The characters that separate tokens. -/
def isSeparator (c : Char) : Bool := c = ' ' || c = '\t' || c = '\n' || c = '\r'

/-- The part of a text before its next brace. -/
def beforeBrace (cs : List Char) : List Char := cs.takeWhile fun c ↦ c ≠ '\x7b' && c ≠ '\x7d'

/-- The digits at the start of a text. -/
def integerPiece (cs : List Char) : Option (TokenKind × List Char) :=
  let digits := cs.takeWhile Char.isDigit
  if digits = [] then none else some (.integer, digits)

/-- The face list at the start of a text: braces around a text without braces. -/
def faceListPiece : List Char → Option (TokenKind × List Char)
  | '\x7b' :: cs =>
    let inner := beforeBrace cs
    if (cs.drop inner.length).head? = some '\x7d' then
      some (.faceList, '\x7b' :: inner ++ ['\x7d'])
    else none
  | _ => none

/-- The pieces with a single spelling at the start of a text. -/
def spelledPieces (cs : List Char) : List (TokenKind × List Char) :=
  (TokenKind.spellings.map fun s ↦ (s.1, s.2.toList)).filter fun s ↦ s.2.isPrefixOf cs

/-- The longer of two pieces. -/
def longer (a b : TokenKind × List Char) : TokenKind × List Char :=
  if a.2.length < b.2.length then b else a

/-- The piece that no form fits: one character, or an opening brace and the text after it. -/
def unrecognizedPiece : List Char → TokenKind × List Char
  | [] => (.unrecognized, [])
  | c :: cs => (.unrecognized, c :: if c = '\x7b' then beforeBrace cs else [])

/-- The longest piece with a form at the start of a text. -/
def longestPiece? (cs : List Char) : Option (TokenKind × List Char) :=
  match (integerPiece cs).toList ++ (faceListPiece cs).toList ++ spelledPieces cs with
  | [] => none
  | p :: ps => some (ps.foldl longer p)

/-- The first piece of a text. -/
def firstPiece (cs : List Char) : TokenKind × List Char :=
  (longestPiece? cs).getD (unrecognizedPiece cs)

/-- The tokens of a text that begins at byte `offset` and whose first `covered` characters belong
to a token already found. -/
def scanFrom : (covered offset : Nat) → List Char → List Token
  | _, _, [] => []
  | n + 1, offset, c :: cs => scanFrom n (offset + c.utf8Size) cs
  | 0, offset, c :: cs =>
    if isSeparator c then scanFrom 0 (offset + c.utf8Size) cs
    else
      let (kind, piece) := firstPiece (c :: cs)
      ⟨kind, ⟨offset, offset + Text.byteLength piece⟩, piece⟩
        :: scanFrom (piece.length - 1) (offset + c.utf8Size) cs

/-- The tokens of a text, in order (`tokenize`). -/
def scan (cs : List Char) : List Token := scanFrom 0 0 cs

/-- Characters of a token already found are skipped together. -/
theorem scanFrom_covered (n offset : Nat) (cs : List Char) :
    scanFrom n offset cs =
      scanFrom 0 (offset + Text.byteLength (cs.take n)) (cs.drop n) := by
  induction n generalizing offset cs with
  | zero => simp [Text.byteLength]
  | succ n ih =>
    cases cs with
    | nil => simp [scanFrom]
    | cons c cs => simp [scanFrom, ih, Text.byteLength, Nat.add_assoc]

end DicePool.Token
