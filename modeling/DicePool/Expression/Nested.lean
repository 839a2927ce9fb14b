import DicePool.Expression.Parse

/-!
# Nested dice terms

An operator with a plain dice term right after it, such as `+1d4`, asks for a number that is
rolled before the expression is read. A term that goes on with a letter or a face list is not
nested: it would be cut in two. Expressions that must not roll refuse nested terms.
-/

namespace DicePool.Expression

/-- The operators after which a dice term is rolled ahead. -/
def opensNested (k : TokenKind) : Bool :=
  k.arithmetic?.isSome || k.assignedSign?.isSome || k.comparison?.isSome

/-- A dice term inside an expression and the operator before it. -/
structure NestedTerm where
  operator : Token
  count : Token
  dice : Token
  sides : Token
  deriving Repr, DecidableEq

namespace NestedTerm

/-- Where the term stands, without its operator. -/
def span (t : NestedTerm) : Span := ⟨t.count.span.start, t.sides.span.stop⟩

/-- The text of the term, without its operator. -/
def text (t : NestedTerm) : String := Token.joined [t.count, t.dice, t.sides]

end NestedTerm

/-- Whether a text goes on so that the dice term before it would be cut in two. -/
def continuesTerm (rest : List Char) : Bool :=
  match rest with
  | [] => false
  | c :: _ => Text.isAlphabetic c || c = '\x7b'

/-- The nested term at the start of the tokens of a text (`nested_term`). -/
def nestedTerm? (cs : List Char) : List Token → Option NestedTerm
  | o :: n :: d :: s :: _ =>
    if opensNested o.kind && n.kind = .integer && d.kind = .dice && s.kind = .integer
        && o.adjacent n && n.adjacent d && d.adjacent s
        && !continuesTerm (Text.dropBytes s.span.stop cs) then
      some ⟨o, n, d, s⟩
    else none
  | _ => none

/-- The nested terms of a text in order. The tokens of one term are not looked at again. -/
def nestedTermsOf (cs : List Char) : List Token → List NestedTerm
  | o :: n :: d :: s :: rest =>
    match nestedTerm? cs (o :: n :: d :: s :: rest) with
    | some t => t :: nestedTermsOf cs rest
    | none => nestedTermsOf cs (n :: d :: s :: rest)
  | _ => []

/-- The nested terms of a text in order. -/
def nestedTerms (cs : List Char) : List NestedTerm := nestedTermsOf cs (Token.scan cs)

/-- Reads a text without nested terms as an expression (`parse_literal`). -/
def parseLiteral (text : String) : Except ParseError Spec :=
  match nestedTerms text.toList with
  | t :: _ => .error ⟨.nestedDice, t.span, t.text⟩
  | [] => parse text

end DicePool.Expression
