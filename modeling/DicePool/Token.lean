import DicePool.Operator
import DicePool.Text.Span

/-!
# Tokens

A token is a kind, a span and the text at that span. Kinds other than integers, face lists and
unrecognized text have a single spelling.
-/

namespace DicePool

/-- What a token is. -/
inductive TokenKind where
  | integer
  | faceList
  | dice
  | dropLowest
  | dropHighest
  | keep
  | keepHighest
  | keepLowest
  | explode
  | compound
  | penetrate
  | compoundPenetrate
  | reroll
  | rerollOnce
  | success
  | fail
  | naturalSuccess
  | naturalFail
  | totalCheck
  | boost
  | adjust
  | plus
  | minus
  | star
  | slash
  | equalPlus
  | equalMinus
  | less
  | lessEqual
  | greater
  | greaterEqual
  | equal
  | equalEqual
  | bangEqual
  | unrecognized
  deriving Repr, DecidableEq

namespace TokenKind

/-- The kinds with a single spelling, each with that spelling. -/
def spellings : List (TokenKind × String) :=
  [(dice, "d"), (dropLowest, "dl"), (dropHighest, "dh"), (keep, "k"), (keepHighest, "kh"),
    (keepLowest, "kl"), (explode, "x"), (compound, "xx"), (penetrate, "xp"),
    (compoundPenetrate, "xxp"), (reroll, "r"), (rerollOnce, "ro"), (success, "s"), (fail, "f"),
    (naturalSuccess, "ns"), (naturalFail, "nf"), (totalCheck, "t"), (boost, "b"), (adjust, "l"),
    (plus, "+"), (minus, "-"), (star, "*"), (slash, "/"), (equalPlus, "=+"), (equalMinus, "=-"),
    (less, "<"), (lessEqual, "<="), (greater, ">"), (greaterEqual, ">="), (equal, "="),
    (equalEqual, "=="), (bangEqual, "!=")]

/-- The single spelling of a kind, if it has one. -/
def spelling? (k : TokenKind) : Option String :=
  (spellings.find? fun s ↦ s.1 = k).map Prod.snd

/-- How an error message calls a kind (`as_str`): its spelling in single quotes, or a word in
angles. -/
def text : TokenKind → String
  | integer => "<integer>"
  | faceList => "<face list>"
  | unrecognized => "<error>"
  | k => "'" ++ k.spelling?.getD "" ++ "'"

/-- The comparison that a kind stands for (`as_cmp_op`). -/
def comparison? : TokenKind → Option Comparison
  | less => some .less
  | lessEqual => some .lessEqual
  | greater => some .greater
  | greaterEqual => some .greaterEqual
  | equal => some .equal
  | equalEqual => some .equal
  | bangEqual => some .notEqual
  | _ => none

/-- The arithmetic operator that a kind stands for (`as_arith_op`). -/
def arithmetic? : TokenKind → Option Arithmetic
  | plus => some .add
  | minus => some .subtract
  | star => some .multiply
  | slash => some .divide
  | _ => none

/-- Whether a sign kind is negative; a plain sign moves the total once, at the end. -/
def sign? : TokenKind → Option Bool
  | plus => some false
  | minus => some true
  | _ => none

/-- Whether an assigned sign is negative; these may follow each other. -/
def assignedSign? : TokenKind → Option Bool
  | equalPlus => some false
  | equalMinus => some true
  | _ => none

end TokenKind

/-- A piece of a text: its kind, where it stands, and the piece itself. -/
structure Token where
  kind : TokenKind
  span : Span
  text : List Char
  deriving Repr, DecidableEq

namespace Token

/-- The number written by an integer token. -/
def number (t : Token) : Nat := Numeral.value t.text

/-- Whether one token ends where the next begins. -/
def adjacent (a b : Token) : Bool := a.span.stop = b.span.start

/-- The tokens up to the first gap. -/
def contiguous : List Token → List Token
  | a :: b :: rest => if a.adjacent b then a :: contiguous (b :: rest) else [a]
  | ts => ts

/-- The text of tokens between which there is no gap. -/
def joined (ts : List Token) : String := String.ofList (ts.flatMap Token.text)

end Token
end DicePool
