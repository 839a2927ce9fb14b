import DicePool.Modifier
import DicePool.Token

/-!
# The clauses of an expression

After its head, an expression is a row of clauses: a boost, assigned adjustments, an evaluator,
methods, a check of the total and a sign. Clauses are read greedily, each taking the tokens that
can belong to it. Reading decides only which tokens belong together; what a clause means, and
whether its numbers are allowed, is settled when the clauses are resolved.
-/

namespace DicePool.Expression

/-- The methods that compare values with a threshold. -/
inductive Test where
  | explode (compound penetrate : Bool)
  | reroll (once : Bool)
  | success
  | fail
  | naturalSuccess
  | naturalFail
  | totalCheck
  deriving Repr, DecidableEq

/-- What the letters of a method ask for. -/
inductive Method where
  | boost
  | adjust
  | keep (layer : Layer)
  | drop (layer : Layer)
  | test (t : Test)
  deriving Repr, DecidableEq

/-- The method that a token stands for. -/
def method? : TokenKind → Option Method
  | .boost => some .boost
  | .adjust => some .adjust
  | .keep => some (.keep .high)
  | .keepHighest => some (.keep .high)
  | .keepLowest => some (.keep .low)
  | .dice => some (.drop .low)
  | .dropLowest => some (.drop .low)
  | .dropHighest => some (.drop .high)
  | .explode => some (.test (.explode false false))
  | .compound => some (.test (.explode true false))
  | .penetrate => some (.test (.explode false true))
  | .compoundPenetrate => some (.test (.explode true true))
  | .reroll => some (.test (.reroll false))
  | .rerollOnce => some (.test (.reroll true))
  | .success => some (.test .success)
  | .fail => some (.test .fail)
  | .naturalSuccess => some (.test .naturalSuccess)
  | .naturalFail => some (.test .naturalFail)
  | .totalCheck => some (.test .totalCheck)
  | _ => none

/-- A group of tokens that belong together. Numbers are kept as tokens. -/
inductive Clause where
  | boost (operator : Option Arithmetic) (amount : Option Token)
  | adjust (negative : Bool) (amount : Option Token)
  | evaluator (comparison : Comparison) (threshold : Option Token)
  | keep (layer : Layer) (count : Option Token)
  | drop (layer : Layer) (count : Option Token)
  | test (t : Test) (comparison : Option Comparison) (threshold : Option Token)
  /-- A comparison after a method that takes a count. -/
  | compared (method : TokenKind) (comparison : Token)
  deriving Repr, DecidableEq

/-- The integer at the start of the tokens (`optional_integer`). -/
def integer? : List Token → Option Token
  | [] => none
  | t :: _ => if t.kind = .integer then some t else none

/-- An optional operator, an optional integer after it, and the number of tokens of both. -/
structure Argument (α : Type) where
  operator : Option α
  amount : Option Token
  size : Nat

/-- Reads an argument whose operator is one of the given kinds. -/
def argument {α : Type} (operator? : TokenKind → Option α) (ts : List Token) : Argument α :=
  match ts.head?.bind fun t ↦ operator? t.kind with
  | some o =>
    let amount := integer? (ts.drop 1)
    ⟨some o, amount, 1 + amount.toList.length⟩
  | none =>
    let amount := integer? ts
    ⟨none, amount, amount.toList.length⟩

/-- Reads an operator of the given kinds that an integer follows, and the tokens after both
(`matches_with_integer`). -/
def operation? {α : Type} (operator? : TokenKind → Option α) :
    List Token → Option (α × Token × List Token)
  | t :: n :: rest =>
    match operator? t.kind with
    | some o => if n.kind = .integer then some (o, n, rest) else none
    | none => none
  | _ => none

/-- Whether a sign of any kind is negative. -/
def anySign? (k : TokenKind) : Option Bool := k.sign?.or k.assignedSign?

/-- The clause of a selecting method: a count, or a comparison that does not belong there. -/
def selectionClause (method : TokenKind) (clause : Option Token → Clause) (ts : List Token) :
    Clause × Nat :=
  let count := integer? ts
  match ts with
  | t :: _ =>
    if t.kind.comparison?.isSome then (.compared method t, 1)
    else (clause count, count.toList.length)
  | [] => (clause count, 0)

/-- The clause of a method and the number of tokens of its argument (`parse_method`). -/
def methodClause (kind : TokenKind) (ts : List Token) : Method → Clause × Nat
  | .boost =>
    let a := argument TokenKind.arithmetic? ts
    (.boost a.operator a.amount, a.size)
  | .adjust =>
    let a := argument anySign? ts
    (.adjust (a.operator.getD false) a.amount, a.size)
  | .keep layer => selectionClause kind (.keep layer) ts
  | .drop layer => selectionClause kind (.drop layer) ts
  | .test t =>
    let a := argument TokenKind.comparison? ts
    (.test t a.operator a.amount, a.size)

/-- An arithmetic operator with a number, right after the head (`parse_boost`). -/
def boostClause (ts : List Token) : List Clause × List Token :=
  match operation? TokenKind.arithmetic? ts with
  | some (o, n, rest) => ([.boost (some o) (some n)], rest)
  | none => ([], ts)

/-- Assigned signs with their numbers, as many as follow each other. -/
def assignedClauses : List Token → List Clause × List Token
  | t :: n :: rest =>
    match t.kind.assignedSign? with
    | some negative =>
      if n.kind = .integer then
        let (clauses, left) := assignedClauses rest
        (.adjust negative (some n) :: clauses, left)
      else ([], t :: n :: rest)
    | none => ([], t :: n :: rest)
  | ts => ([], ts)

/-- A comparison before the methods. -/
def evaluatorClause (ts : List Token) : List Clause × List Token :=
  match ts.head?.bind fun t ↦ t.kind.comparison? with
  | some c =>
    let threshold := integer? (ts.drop 1)
    ([.evaluator c threshold], ts.drop (1 + threshold.toList.length))
  | none => ([], ts)

/-- The methods with their arguments; the first `covered` tokens belong to a method already
read. -/
def methodClauses : (covered : Nat) → List Token → List Clause × List Token
  | _, [] => ([], [])
  | n + 1, _ :: ts => methodClauses n ts
  | 0, t :: ts =>
    match method? t.kind with
    | some m =>
      let (clause, used) := methodClause t.kind ts m
      let (clauses, left) := methodClauses used ts
      (clause :: clauses, left)
    | none => ([], t :: ts)

/-- A comparison with a number after the methods, which checks the total. -/
def checkClause (ts : List Token) : List Clause × List Token :=
  match operation? TokenKind.comparison? ts with
  | some (c, n, rest) => ([.test .totalCheck (some c) (some n)], rest)
  | none => ([], ts)

/-- A sign with a number at the end. -/
def signClause (ts : List Token) : List Clause × List Token :=
  match operation? TokenKind.sign? ts with
  | some (negative, n, rest) => ([.adjust negative (some n)], rest)
  | none => ([], ts)

/-- The clauses at the start of the tokens in reading order, and the tokens that are left. -/
def clauses (ts : List Token) : List Clause × List Token :=
  let (boost, ts) := boostClause ts
  let (assigned, ts) := assignedClauses ts
  let (evaluator, ts) := evaluatorClause ts
  let (methods, ts) := methodClauses 0 ts
  let (check, ts) := checkClause ts
  let (sign, ts) := signClause ts
  (boost ++ assigned ++ evaluator ++ methods ++ check ++ sign, ts)

/-- Tokens of a method already read are skipped together. -/
theorem methodClauses_covered (n : Nat) (ts : List Token) :
    methodClauses n ts = methodClauses 0 (ts.drop n) := by
  induction n generalizing ts with
  | zero => simp
  | succ n ih =>
    cases ts with
    | nil => simp [methodClauses]
    | cons t ts => simp [methodClauses, ih]

end DicePool.Expression
