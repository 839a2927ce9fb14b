import DicePool.Analysis.Exact
import DicePool.Analysis.Sampling
import DicePool.Roll.Throw

/-!
# Line sessions

A session reads one expression a line. A line that starts with `?` asks for the exact distribution
of the expression after it, `~` for a sampled one, any other line is thrown. Blank lines have no
answer; each answer is one line. A prompt stands before every line and at the end.
-/

namespace DicePool.Session

/-- The prompt before a line. -/
def prompt : String := "> "

/-- What `--version` prints. -/
def version : String := "dice-repl 0.1.0"

/-- The limits of all rolls, and the number of samples behind `~` (`Cli`). -/
structure Options where
  limits : Limits := {}
  samples : Nat := 100000
  deriving Repr, DecidableEq

/-- What can be set on the command line. -/
inductive Setting where
  | maxDepth
  | maxRolls
  | maxOutcomes
  | samples
  deriving Repr, DecidableEq

namespace Setting

/-- All settings. -/
def all : List Setting := [maxDepth, maxRolls, maxOutcomes, samples]

/-- The option that sets it. -/
def option : Setting → String
  | maxDepth => "--max-depth"
  | maxRolls => "--max-rolls"
  | maxOutcomes => "--max-outcomes"
  | samples => "--samples"

/-- The bound below which its values lie: the samples fit 32 bits, the others 64. -/
def bound : Setting → Nat
  | samples => 4294967296
  | _ => 18446744073709551616

/-- The options with the setting put to a value. -/
def put (s : Setting) (value : Nat) (o : Options) : Options :=
  match s with
  | maxDepth => { o with limits := { o.limits with explosionDepth := value } }
  | maxRolls => { o with limits := { o.limits with rolls := value } }
  | maxOutcomes => { o with limits := { o.limits with outcomes := value } }
  | samples => { o with samples := value }

/-- Whether its values are signed numbers. The bound leaves them no negative one but zero. -/
def isSigned : Setting → Bool
  | samples => true
  | _ => false

/-- Reads a value: digits, after a plus sign or none. A signed one may also be a negative zero. -/
def value? (s : Setting) (text : List Char) : Option Nat :=
  let negative := text.head? = some '-'
  let digits := if negative ∨ text.head? = some '+' then text.drop 1 else text
  let value := Numeral.value digits
  if digits ≠ [] ∧ digits.all Char.isDigit ∧ value < s.bound ∧
      (negative → s.isSigned ∧ value = 0) then
    some value
  else none

/-- The setting whose option an argument is. -/
def ofOption? (argument : List Char) : Option Setting :=
  all.find? fun s ↦ s.option.toList = argument

end Setting

/-- What a command line asks for. -/
inductive Invocation where
  | run (o : Options)
  | version
  | refused
  deriving Repr, DecidableEq

/-- Reads the arguments from left to right. Each setting may be given once, its value in the same
argument after an equals sign or in the next one, where a leading minus sign would begin another
option; nothing else but the version may be asked for. -/
def invocationFrom (given : List Setting) (o : Options) : List (List Char) → Invocation
  | [] => .run o
  | argument :: rest =>
    let setTo (s : Setting) (value : List Char) (next : Options → Invocation) : Invocation :=
      if s ∈ given then .refused else ((s.value? value).map fun n ↦ next (s.put n o)).getD .refused
    if argument = "--".toList then if rest = [] then .run o else .refused
    else if argument = "--version".toList ∨ "-V".toList.isPrefixOf argument then .version
    else
      match Setting.ofOption? argument, rest with
      | some _, ('-' :: _) :: _ => .refused
      | some s, value :: rest => setTo s value fun o ↦ invocationFrom (s :: given) o rest
      | some _, [] => .refused
      | none, rest =>
        match Setting.ofOption? (argument.takeWhile (· ≠ '=')) with
        | some s =>
          setTo s (argument.drop (s.option.length + 1)) fun o ↦ invocationFrom (s :: given) o rest
        | none => .refused

/-- What the arguments of a command line ask for. -/
def invocation (arguments : List String) : Invocation :=
  invocationFrom [] {} (arguments.map String.toList)

/-- The report on an analysis, or what was wrong. -/
def analysisText : Except Error Analysis → String
  | .ok a => a.json.render
  | .error e => "Error: " ++ e.message

variable {σ : Type} [Roller σ]

/-- The answer to a line that is not blank (`eval_line`). -/
def respond (o : Options) (line : List Char) (c : Context σ) : String × Context σ :=
  match line with
  | '?' :: rest =>
    (analysisText (Analysis.ofExpression (String.ofList (Text.trim rest)) c.limits), c)
  | '~' :: rest =>
    let (result, c) := (Analysis.monteCarlo (String.ofList (Text.trim rest)) o.samples).run c
    (analysisText result, c)
  | line =>
    let (thrown, c) := Throw.run (String.ofList line) c
    (thrown.text, c)

/-- The answer to the bytes of a line: none if it is blank, and an error if it is no text. -/
def answer (o : Options) (line : ByteArray) (c : Context σ) : Option String × Context σ :=
  match String.fromUTF8? line with
  | none => (some "Error: stream did not contain valid UTF-8", c)
  | some s =>
    match Text.trim s.toList with
    | [] => (none, c)
    | line =>
      let (text, c) := respond o line c
      (some text, c)

/-- The lines of an input. A line break ends a line; it does not begin one. -/
def lines : List UInt8 → List (List UInt8)
  | [] => []
  | b :: rest =>
    if b = 10 then [] :: lines rest
    else
      match lines rest with
      | [] => [[b]]
      | line :: others => (b :: line) :: others

/-- Everything that a session prints for the lines of its input. -/
def transcriptOf (o : Options) : List (List UInt8) → Context σ → String
  | [], _ => prompt
  | line :: rest, c =>
    let (text?, c) := answer o (ByteArray.mk line.toArray) c
    prompt ++ (text?.map fun s ↦ s ++ "\n").getD "" ++ transcriptOf o rest c

/-- Everything that a session prints for an input, with the full budget at its start. -/
def transcript (o : Options) (input : List UInt8) (source : σ) : String :=
  transcriptOf o (lines input) (Context.new o.limits source)

end DicePool.Session
