import DicePool.Expression.Resolve
import DicePool.Token.Lexer

/-!
# Reading expressions

An expression begins with its head: a count, the letter `d` and the sides. The sides are judged
before the count, and both before any clause. A whole text is an expression if nothing is left
after the clauses.
-/

namespace DicePool.Expression

/-- The faces that a token stands for (`parse_sides`). -/
def sides (t : Token) : Except ParseError FaceSet :=
  if t.kind = .integer then
    if maxSides < t.number then .error (.atToken .tooManyFaces t)
    else
      match FaceSet.ofSides? t.number with
      | some faces => .ok faces
      | none => .error (.atToken .impossibleFaces t)
  else if t.kind = .faceList then
    match FaceSet.ofText? t.text with
    | some faces => .ok faces
    | none => .error (.atToken .unknownSides t)
  else .error (.atToken .unknownSides t)

/-- The number of dice that a token stands for. -/
def diceCount (t : Token) : Except ParseError Nat :=
  if maxDice < t.number then .error (.atToken .tooManyDice t)
  else if t.number = 0 then .error (.atToken .noDice t)
  else .ok t.number

/-- The token at the start of the tokens of a text of `stop` bytes, which has to be of a given kind,
and the tokens after it (`consume`). -/
def expect (kind : TokenKind) (stop : Nat) :
    List Token → Except ParseError (Token × List Token)
  | [] => .error (.unexpected [kind] stop [])
  | t :: ts => if t.kind = kind then .ok (t, ts) else .error (.unexpected [kind] stop (t :: ts))

/-- The count and the faces at the start of the tokens of a text of `stop` bytes, and the tokens
after them. -/
def head (stop : Nat) (ts : List Token) : Except ParseError (Nat × FaceSet × List Token) := do
  let (n, ts) ← expect .integer stop ts
  let (_, ts) ← expect .dice stop ts
  match ts with
  | [] => .error (.atEnd .unknownSides stop)
  | s :: ts =>
    let faces ← sides s
    let count ← diceCount n
    return (count, faces, ts)

/-- The specification at the start of the tokens of a text of `stop` bytes, and the tokens that are
left (`parse_spec`). -/
def parseTokens (stop : Nat) (ts : List Token) : Except ParseError (Spec × List Token) := do
  let (count, faces, ts) ← head stop ts
  let (cs, left) := clauses ts
  let modifiers ← resolve faces stop cs
  return ({ count, faces, modifiers }, left)

/-- Reads a text that is an expression as a whole. -/
def parse (text : String) : Except ParseError Spec := do
  let cs := text.toList
  let stop := Text.byteLength cs
  let (spec, left) ← parseTokens stop (Token.scan cs)
  if left = [] then return spec else throw (.unexpected [] stop left)

end DicePool.Expression
