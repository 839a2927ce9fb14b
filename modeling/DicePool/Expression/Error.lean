import DicePool.ErrorKind
import DicePool.Token
import DicePool.Text.Quoted

/-!
# Errors of reading an expression

Each error has a cause and points at a span of the text; its message quotes the text there.
-/

namespace DicePool

/-- Why a text is not an expression (`ParseErrorKind`). -/
inductive ParseCause where
  | unexpectedToken (found : Option TokenKind) (expected : List TokenKind)
  | unrecognizedText (expected : List TokenKind)
  | numberTooLarge
  | nestedDice
  | noDice
  | divisionByZero
  | poolComparison (method : TokenKind)
  | unknownSides
  | impossibleFaces
  | tooManyFaces
  | tooManyDice
  deriving Repr, DecidableEq

namespace ParseCause

/-- The kind of error that a cause belongs to (`error_kind`). -/
def kind : ParseCause → ErrorKind
  | unknownSides => .unknownSides
  | impossibleFaces => .impossibleFaces
  | tooManyFaces => .tooManyFaces
  | tooManyDice => .tooManyDice
  | _ => .badExpression

/-- Alternatives in a sentence (`fmt_expected`): two are joined by "or", more are separated by
commas as well. -/
def alternatives (kinds : List TokenKind) : String :=
  match kinds.map TokenKind.text with
  | [] => ""
  | [a] => a
  | [a, b] => a ++ " or " ++ b
  | names =>
    String.join (names.dropLast.map fun s ↦ s ++ ", ") ++ "or " ++ names.getLast?.getD ""

/-- What was expected, if anything was. -/
def expectation (expected : List TokenKind) : String :=
  if expected = [] then "" else ", expected " ++ alternatives expected

/-- The cause as a sentence. -/
def message : ParseCause → String
  | unexpectedToken (some found) expected =>
    "unexpected token: found " ++ found.text ++ expectation expected
  | unexpectedToken none expected => "unexpected end of input" ++ expectation expected
  | unrecognizedText expected => "unrecognized input" ++ expectation expected
  | numberTooLarge => "numbers may be at most " ++ Numeral.ofNat maxLiteral
  | nestedDice => "nested dice terms cannot be analyzed exactly"
  | noDice => "at least one die must be rolled"
  | divisionByZero => "cannot divide a die by zero"
  | poolComparison method => method.text ++ " takes a count, not a comparison"
  | unknownSides => "die sides must be a number or a \x7b...\x7d list"
  | impossibleFaces => "a die needs at least one side"
  | tooManyFaces => "a die may have at most " ++ Numeral.ofNat maxSides ++ " sides"
  | tooManyDice => "at most " ++ Numeral.ofNat maxDice ++ " dice may be rolled"

end ParseCause

/-- A cause, the span of the text that it concerns, and the text of that span. -/
structure ParseError where
  cause : ParseCause
  span : Span
  slice : String
  deriving Repr, DecidableEq

namespace ParseError

/-- The error at a token. -/
def atToken (cause : ParseCause) (t : Token) : ParseError :=
  ⟨cause, t.span, String.ofList t.text⟩

/-- The error at the end of a text of `stop` bytes (`end_span`). -/
def atEnd (cause : ParseCause) (stop : Nat) : ParseError := ⟨cause, ⟨stop, stop⟩, ""⟩

/-- The error for tokens that do not begin with one of the expected kinds, in a text of `stop` bytes
(`unexpected_token`). -/
def unexpected (expected : List TokenKind) (stop : Nat) : List Token → ParseError
  | [] => atEnd (.unexpectedToken none expected) stop
  | t :: _ =>
    if t.kind = .unrecognized then atToken (.unrecognizedText expected) t
    else atToken (.unexpectedToken (some t.kind) expected) t

/-- The kind of the error. -/
def kind (e : ParseError) : ErrorKind := e.cause.kind

/-- The position, the quoted text and the cause. -/
def message (e : ParseError) : String :=
  "error at position " ++ Numeral.ofNat e.span.start ++ " (" ++ Text.quoted e.slice ++ "): "
    ++ e.cause.message

end ParseError
end DicePool
