import DicePool.Token
import Mathlib.Data.List.Basic

/-!
# The grammar of expressions

An expression is a count, `d` and sides, followed by optional parts in a fixed order: a boost,
assigned signs, an evaluator, methods, a check of the total and a sign. A reading says which tokens
belong to which part. Readings are not unique: a comparison can belong to a method, be the
evaluator or check the total, and a sign can be a boost, belong to a method or stand at the end.
The greedy reading leaves a part out only where the next tokens cannot begin it. Every sentence has
exactly one greedy reading, whatever reading made it a sentence.
-/

namespace DicePool.Grammar

/-- The operators of a boost. -/
def arithmetic : List TokenKind := [.plus, .minus, .star, .slash]

/-- The comparison operators. -/
def comparisons : List TokenKind :=
  [.less, .lessEqual, .greater, .greaterEqual, .equal, .equalEqual, .bangEqual]

/-- The signs that may follow each other. -/
def assignedSigns : List TokenKind := [.equalPlus, .equalMinus]

/-- The signs at the end. -/
def signs : List TokenKind := [.plus, .minus]

/-- The letters of the methods that keep or drop a number of dice. -/
def pools : List TokenKind :=
  [.keep, .keepHighest, .keepLowest, .dice, .dropLowest, .dropHighest]

/-- The letters of the methods that compare. -/
def tests : List TokenKind :=
  [.explode, .compound, .penetrate, .compoundPenetrate, .reroll, .rerollOnce, .success, .fail,
    .naturalSuccess, .naturalFail, .totalCheck]

/-- The letters of all methods. -/
def methodLetters : List TokenKind := pools ++ tests ++ [.boost, .adjust]

/-- The operators that may stand between the letters of a method and its number. -/
def operators (k : TokenKind) : List TokenKind :=
  if k = .boost then arithmetic
  else if k = .adjust then signs ++ assignedSigns
  else if k ∈ tests then comparisons
  else []

/-- No operator of a method is an integer. -/
theorem integer_notMem_operators (k : TokenKind) : .integer ∉ operators k := by
  cases k <;> decide

/-- No letters of a method are an operator. -/
theorem notMem_operators_of_mem_letters {k : TokenKind} (h : k ∈ methodLetters) (k' : TokenKind) :
    k ∉ operators k' := by
  cases k' <;> revert k <;> decide

/-- Whether the first token is of one of the given kinds. -/
def Starts (kinds : List TokenKind) (ts : List Token) : Prop := ∃ t ∈ ts.head?, t.kind ∈ kinds

instance (kinds : List TokenKind) (ts : List Token) : Decidable (Starts kinds ts) :=
  inferInstanceAs (Decidable (∃ t ∈ ts.head?, t.kind ∈ kinds))

/-- The first token decides. -/
@[simp] theorem starts_cons {kinds : List TokenKind} {t : Token} {ts : List Token} :
    Starts kinds (t :: ts) ↔ t.kind ∈ kinds := by
  simp [Starts]

/-- No tokens have no first token. -/
@[simp] theorem not_starts_nil {kinds : List TokenKind} : ¬Starts kinds [] := by
  simp [Starts]

/-- An operator with its number. -/
structure Operation where
  operator : Token
  amount : Token
  deriving DecidableEq

namespace Operation

/-- The tokens of an operation. -/
def tokens (o : Operation) : List Token := [o.operator, o.amount]

/-- Whether the operator is of one of the given kinds and its number is an integer. -/
def Of (kinds : List TokenKind) (o : Operation) : Prop :=
  o.operator.kind ∈ kinds ∧ o.amount.kind = .integer

instance (kinds : List TokenKind) (o : Operation) : Decidable (o.Of kinds) :=
  inferInstanceAs (Decidable (_ ∧ _))

end Operation

/-- Whether the first two tokens are an operation of the given kinds. -/
def StartsOperation (kinds : List TokenKind) (ts : List Token) : Prop :=
  ∃ o : Operation, o.Of kinds ∧ o.tokens <+: ts

/-- Two tokens in front decide. -/
@[simp] theorem startsOperation_cons_cons {kinds : List TokenKind} {t n : Token} {ts : List Token} :
    StartsOperation kinds (t :: n :: ts) ↔ t.kind ∈ kinds ∧ n.kind = .integer := by
  constructor
  · rintro ⟨⟨t', n'⟩, of, rest, same⟩
    cases same
    exact of
  · intro of
    exact ⟨⟨t, n⟩, of, ts, rfl⟩

/-- An operation has two tokens. -/
theorem not_startsOperation_of_length {kinds : List TokenKind} {ts : List Token}
    (h : ts.length < 2) : ¬StartsOperation kinds ts := by
  rintro ⟨o, _, rest, rfl⟩
  rw [List.length_append] at h
  exact absurd h (Nat.not_lt.mpr (Nat.le_add_right 2 rest.length))

instance (kinds : List TokenKind) (ts : List Token) : Decidable (StartsOperation kinds ts) :=
  match ts with
  | [] => .isFalse (not_startsOperation_of_length Nat.two_pos)
  | [_] => .isFalse (not_startsOperation_of_length Nat.one_lt_two)
  | _ :: _ :: _ => decidable_of_iff _ startsOperation_cons_cons.symm

/-- An operation starts with its operator. -/
theorem StartsOperation.starts {kinds : List TokenKind} {ts : List Token}
    (h : StartsOperation kinds ts) : Starts kinds ts := by
  obtain ⟨o, of, rest, rfl⟩ := h
  exact starts_cons.mpr of.1

/-- The tokens of an optional operation. -/
def optional (o? : Option Operation) : List Token := o?.toList.flatMap Operation.tokens

/-- Nothing else starts where an optional operation stands. -/
theorem not_starts_optional {kinds kinds' : List TokenKind} {o? : Option Operation}
    {rest : List Token} (h : ∀ o ∈ o?, o.Of kinds') (hd : ∀ k ∈ kinds, k ∉ kinds')
    (hr : ¬Starts kinds rest) : ¬Starts kinds (optional o? ++ rest) := by
  cases o? with
  | none => exact hr
  | some o => exact fun hs ↦ hd _ (starts_cons.mp hs) (h o rfl).1

/-- A comparison before the methods. -/
structure Evaluator where
  operator : Token
  amount? : Option Token
  deriving DecidableEq

namespace Evaluator

/-- The tokens of an evaluator. -/
def tokens (e : Evaluator) : List Token := e.operator :: e.amount?.toList

/-- Whether the operator compares and the number is an integer. -/
def WellFormed (e : Evaluator) : Prop :=
  e.operator.kind ∈ comparisons ∧ ∀ n ∈ e.amount?, n.kind = .integer

instance (e : Evaluator) : Decidable e.WellFormed := inferInstanceAs (Decidable (_ ∧ _))

end Evaluator

/-- A method with its argument. -/
structure Item where
  letters : Token
  operator? : Option Token
  amount? : Option Token
  deriving DecidableEq

namespace Item

/-- The tokens of the argument. -/
def argument (i : Item) : List Token := i.operator?.toList ++ i.amount?.toList

/-- The tokens of a method. -/
def tokens (i : Item) : List Token := i.letters :: i.argument

/-- Whether the letters are those of a method, the operator is one of its operators and the number
is an integer. -/
def WellFormed (i : Item) : Prop :=
  i.letters.kind ∈ methodLetters ∧ (∀ o ∈ i.operator?, o.kind ∈ operators i.letters.kind) ∧
    ∀ n ∈ i.amount?, n.kind = .integer

instance (i : Item) : Decidable i.WellFormed := inferInstanceAs (Decidable (_ ∧ _ ∧ _))

/-- Whether a method may stand before the given tokens: one that keeps or drops no written number
of dice is not compared. -/
def Fits (i : Item) (after : List Token) : Prop :=
  i.WellFormed ∧ (i.letters.kind ∈ pools → i.amount? = none → ¬Starts comparisons after)

instance (i : Item) (after : List Token) : Decidable (i.Fits after) :=
  inferInstanceAs (Decidable (_ ∧ (_ → _ → ¬_)))

/-- Whether a method before the given tokens leaves out only what does not follow it. -/
def Greedy (i : Item) (after : List Token) : Prop :=
  (i.operator? = none → ¬Starts (operators i.letters.kind) (i.amount?.toList ++ after)) ∧
    (i.amount? = none → ¬Starts [.integer] after)

instance (i : Item) (after : List Token) : Decidable (i.Greedy after) :=
  inferInstanceAs (Decidable ((_ → ¬_) ∧ (_ → ¬_)))

end Item

/-- Whether each of a row of methods satisfies a property together with the tokens after it, where
`rest` follows the row. -/
def EachBefore (rest : List Token) (P : Item → List Token → Prop) : List Item → Prop
  | [] => True
  | i :: items => P i (items.flatMap Item.tokens ++ rest) ∧ EachBefore rest P items

instance (rest : List Token) (P : Item → List Token → Prop) [∀ i ts, Decidable (P i ts)] :
    (items : List Item) → Decidable (EachBefore rest P items)
  | [] => .isTrue trivial
  | i :: items =>
    have := instDecidableEachBefore rest P items
    inferInstanceAs (Decidable (P i (items.flatMap Item.tokens ++ rest) ∧ EachBefore rest P items))

/-- A row of methods is cut anywhere. -/
theorem eachBefore_append {rest : List Token} {P : Item → List Token → Prop} {a b : List Item} :
    EachBefore rest P (a ++ b) ↔
      EachBefore (b.flatMap Item.tokens ++ rest) P a ∧ EachBefore rest P b := by
  induction a with
  | nil => simp [EachBefore]
  | cons i a ih =>
    rw [List.cons_append, EachBefore, EachBefore, ih, List.flatMap_append, List.append_assoc,
      and_assoc]

/-- The tokens of an expression by the parts that they belong to. -/
structure Reading where
  count : Token
  dice : Token
  sides : Token
  boost? : Option Operation
  assigned : List Operation
  evaluator? : Option Evaluator
  methods : List Item
  check? : Option Operation
  sign? : Option Operation
  deriving DecidableEq

namespace Reading

/-- The tokens after the check of the total. -/
def afterCheck (r : Reading) : List Token := optional r.sign?

/-- The tokens after the methods. -/
def afterMethods (r : Reading) : List Token := optional r.check? ++ r.afterCheck

/-- The tokens after the evaluator. -/
def afterEvaluator (r : Reading) : List Token :=
  r.methods.flatMap Item.tokens ++ r.afterMethods

/-- The tokens after the assigned signs. -/
def afterAssigned (r : Reading) : List Token :=
  r.evaluator?.toList.flatMap Evaluator.tokens ++ r.afterEvaluator

/-- The tokens after the boost. -/
def afterBoost (r : Reading) : List Token :=
  r.assigned.flatMap Operation.tokens ++ r.afterAssigned

/-- The tokens after the sides. -/
def afterSides (r : Reading) : List Token := optional r.boost? ++ r.afterBoost

/-- All tokens in order. -/
def tokens (r : Reading) : List Token := r.count :: r.dice :: r.sides :: r.afterSides

/-- Whether a reading follows the grammar, which looks at the kinds of the tokens only. -/
structure WellFormed (r : Reading) : Prop where
  count : r.count.kind = .integer
  dice : r.dice.kind = .dice
  sides : r.sides.kind = .integer ∨ r.sides.kind = .faceList
  boost : ∀ o ∈ r.boost?, o.Of arithmetic
  assigned : ∀ o ∈ r.assigned, o.Of assignedSigns
  evaluator : ∀ e ∈ r.evaluator?, e.WellFormed
  methods : EachBefore r.afterMethods Item.Fits r.methods
  check : ∀ o ∈ r.check?, o.Of comparisons
  sign : ∀ o ∈ r.sign?, o.Of signs

instance (r : Reading) : Decidable r.WellFormed :=
  decidable_of_iff
    (r.count.kind = .integer ∧ r.dice.kind = .dice ∧
      (r.sides.kind = .integer ∨ r.sides.kind = .faceList) ∧ (∀ o ∈ r.boost?, o.Of arithmetic) ∧
      (∀ o ∈ r.assigned, o.Of assignedSigns) ∧ (∀ e ∈ r.evaluator?, e.WellFormed) ∧
      EachBefore r.afterMethods Item.Fits r.methods ∧ (∀ o ∈ r.check?, o.Of comparisons) ∧
      ∀ o ∈ r.sign?, o.Of signs)
    ⟨fun ⟨c, d, s, b, a, e, m, t, z⟩ ↦ ⟨c, d, s, b, a, e, m, t, z⟩,
      fun ⟨c, d, s, b, a, e, m, t, z⟩ ↦ ⟨c, d, s, b, a, e, m, t, z⟩⟩

namespace WellFormed

variable {r : Reading} {kinds : List TokenKind}

/-- Only signs stand after the check. -/
theorem not_starts_afterCheck (h : r.WellFormed) (hd : ∀ k ∈ kinds, k ∉ signs) :
    ¬Starts kinds r.afterCheck := by
  rw [afterCheck, ← List.append_nil (optional r.sign?)]
  exact not_starts_optional h.sign hd not_starts_nil

/-- Only a check or a sign stands after the methods. -/
theorem not_starts_afterMethods (h : r.WellFormed) (hd : ∀ k ∈ kinds, k ∉ comparisons ++ signs) :
    ¬Starts kinds r.afterMethods := by
  simp only [List.mem_append, not_or] at hd
  exact not_starts_optional h.check (fun k hk ↦ (hd k hk).1)
    (h.not_starts_afterCheck fun k hk ↦ (hd k hk).2)

/-- Only a method, a check or a sign stands after the evaluator. -/
theorem not_starts_afterEvaluator (h : r.WellFormed)
    (hd : ∀ k ∈ kinds, k ∉ methodLetters ++ (comparisons ++ signs)) :
    ¬Starts kinds r.afterEvaluator := by
  simp only [List.mem_append (s := methodLetters), not_or] at hd
  have methods := h.methods
  unfold afterEvaluator
  cases hm : r.methods with
  | nil => exact h.not_starts_afterMethods fun k hk ↦ (hd k hk).2
  | cons i items =>
    rw [hm] at methods
    exact fun hs ↦ (hd _ (starts_cons.mp hs)).1 methods.1.1.1

/-- No assigned sign stands after the last of them. -/
theorem not_starts_afterAssigned (h : r.WellFormed) : ¬Starts assignedSigns r.afterAssigned := by
  unfold afterAssigned
  cases he : r.evaluator? with
  | none => exact h.not_starts_afterEvaluator (by decide)
  | some e =>
    have disjoint : ∀ k ∈ assignedSigns, k ∉ comparisons := by decide
    exact fun hs ↦ disjoint _ (starts_cons.mp hs) (h.evaluator e he).1

end WellFormed

/-- Whether every part is left out only where the next tokens cannot begin it. -/
structure Greedy (r : Reading) : Prop where
  boost : r.boost? = none → ¬StartsOperation arithmetic r.afterBoost
  assigned : ¬StartsOperation assignedSigns r.afterAssigned
  evaluator : r.evaluator? = none → ¬Starts comparisons r.afterEvaluator
  threshold : ∀ e ∈ r.evaluator?, e.amount? = none → ¬Starts [.integer] r.afterEvaluator
  arguments : EachBefore r.afterMethods Item.Greedy r.methods
  methods : ¬Starts methodLetters r.afterMethods
  check : r.check? = none → ¬StartsOperation comparisons r.afterCheck

instance (r : Reading) : Decidable r.Greedy :=
  decidable_of_iff
    ((r.boost? = none → ¬StartsOperation arithmetic r.afterBoost) ∧
      ¬StartsOperation assignedSigns r.afterAssigned ∧
      (r.evaluator? = none → ¬Starts comparisons r.afterEvaluator) ∧
      (∀ e ∈ r.evaluator?, e.amount? = none → ¬Starts [.integer] r.afterEvaluator) ∧
      EachBefore r.afterMethods Item.Greedy r.methods ∧ ¬Starts methodLetters r.afterMethods ∧
      (r.check? = none → ¬StartsOperation comparisons r.afterCheck))
    ⟨fun ⟨b, a, e, t, i, m, c⟩ ↦ ⟨b, a, e, t, i, m, c⟩,
      fun ⟨b, a, e, t, i, m, c⟩ ↦ ⟨b, a, e, t, i, m, c⟩⟩

end Reading

/-- Whether tokens have a reading. -/
def Sentence (ts : List Token) : Prop := ∃ r : Reading, r.WellFormed ∧ r.tokens = ts

/-- Whether a reading of tokens is greedy. -/
def GreedyReading (ts : List Token) (r : Reading) : Prop :=
  r.WellFormed ∧ r.Greedy ∧ r.tokens = ts

instance (ts : List Token) (r : Reading) : Decidable (GreedyReading ts r) :=
  inferInstanceAs (Decidable (_ ∧ _ ∧ _))

end DicePool.Grammar
