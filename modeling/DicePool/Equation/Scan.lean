import DicePool.Expression.Parse

/-!
# Dice expressions inside a text

A dice expression starts at a count, a `d` and sides with no gap between them, and goes as far as
the grammar allows without crossing a gap. The scan finds all of them from left to right; what
stands between them is left alone.
-/

namespace DicePool.Equation

/-- A dice expression inside a text (`SubExpression`). -/
structure Term where
  text : String
  spec : Spec
  span : Span
  deriving Repr, DecidableEq

/-- Whether a count, a `d` and sides stand at the start of the tokens, without gaps
(`starts_dice_term`). -/
def startsTerm : List Token → Bool
  | n :: d :: s :: _ =>
    n.kind = .integer && d.kind = .dice && (s.kind = .integer || s.kind = .faceList)
      && n.adjacent d && d.adjacent s
  | _ => false

/-- The expression at the start of the tokens of a text of `stop` bytes, read up to the first gap,
and the number of its tokens. -/
def term (stop : Nat) (ts : List Token) : Except ParseError (Term × Nat) := do
  let run := Token.contiguous ts
  let (spec, left) ← Expression.parseTokens stop run
  let used := run.take (run.length - left.length)
  let start := (used.head?.map fun t ↦ t.span.start).getD stop
  let last := (used.getLast?.map fun t ↦ t.span.stop).getD stop
  return (⟨Token.joined used, spec, ⟨start, last⟩⟩, used.length)

/-- The expressions among the tokens of a text of `stop` bytes; the first `covered` tokens belong
to an expression already found. -/
def termsFrom (stop : Nat) : (covered : Nat) → List Token → Except ParseError (List Term)
  | _, [] => .ok []
  | n + 1, _ :: ts => termsFrom stop n ts
  | 0, t :: ts =>
    if startsTerm (t :: ts) then do
      let (found, used) ← term stop (t :: ts)
      return found :: (← termsFrom stop (used - 1) ts)
    else termsFrom stop 0 ts

/-- The dice expressions of a text in order (`parse_all_sub_expressions`). -/
def terms (text : String) : Except ParseError (List Term) :=
  let cs := text.toList
  termsFrom (Text.byteLength cs) 0 (Token.scan cs)

/-- Tokens of an expression already found are skipped together. -/
theorem termsFrom_covered (stop n : Nat) (ts : List Token) :
    termsFrom stop n ts = termsFrom stop 0 (ts.drop n) := by
  induction n generalizing ts with
  | zero => simp
  | succ n ih =>
    cases ts with
    | nil => simp [termsFrom]
    | cons t ts => simp [termsFrom, ih]

end DicePool.Equation
