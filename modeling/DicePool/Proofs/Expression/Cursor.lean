import DicePool.Expression.Clause
import DicePool.Proofs.Expression.Greedy

/-!
# The cursor reads greedily

Clauses are read by looking at most two tokens ahead. On the tokens of a greedy reading each step
takes exactly the part that the reading has there. Conversely the tokens that the cursor takes form
a reading, unless it found a comparison after a method that takes a count.
-/

namespace DicePool.Grammar

open Expression

/-- The arithmetic operators are those that a boost can have. -/
theorem isSome_arithmetic? (k : TokenKind) : k.arithmetic?.isSome = true ↔ k ∈ arithmetic := by
  cases k <;> decide

/-- The comparison operators are those with a comparison. -/
theorem isSome_comparison? (k : TokenKind) : k.comparison?.isSome = true ↔ k ∈ comparisons := by
  cases k <;> decide

/-- The signs at the end are the plain ones. -/
theorem isSome_sign? (k : TokenKind) : k.sign?.isSome = true ↔ k ∈ signs := by
  cases k <;> decide

/-- The signs that may follow each other are the assigned ones. -/
theorem isSome_assignedSign? (k : TokenKind) :
    k.assignedSign?.isSome = true ↔ k ∈ assignedSigns := by
  cases k <;> decide

/-- The operators of an adjusting method are all signs. -/
theorem isSome_anySign? (k : TokenKind) :
    (anySign? k).isSome = true ↔ k ∈ signs ++ assignedSigns := by
  cases k <;> decide

/-- The letters of a method are the kinds that stand for one. -/
theorem isSome_method? (k : TokenKind) : (method? k).isSome = true ↔ k ∈ methodLetters := by
  cases k <;> decide

/-- A boost with its number. -/
def Operation.boost (o : Operation) : Clause := .boost o.operator.kind.arithmetic? (some o.amount)

/-- A sign with its number. -/
def Operation.adjust (o : Operation) : Clause :=
  .adjust ((anySign? o.operator.kind).getD false) (some o.amount)

/-- A check of the total. -/
def Operation.check (o : Operation) : Clause :=
  .test .totalCheck o.operator.kind.comparison? (some o.amount)

/-- The clause of an evaluator. -/
def Evaluator.clause (e : Evaluator) : Clause :=
  .evaluator (e.operator.kind.comparison?.getD .equal) e.amount?

/-- The clause of a method with its argument. -/
def Item.clauseOf (i : Item) : Method → Clause
  | .boost => .boost (i.operator?.bind fun o ↦ o.kind.arithmetic?) i.amount?
  | .adjust => .adjust ((i.operator?.bind fun o ↦ anySign? o.kind).getD false) i.amount?
  | .keep layer => .keep layer i.amount?
  | .drop layer => .drop layer i.amount?
  | .test t => .test t (i.operator?.bind fun o ↦ o.kind.comparison?) i.amount?

/-- The clause of a method, if its letters are those of one. -/
def Item.clause? (i : Item) : Option Clause := (method? i.letters.kind).map i.clauseOf

/-- The clauses of a reading in order. -/
def Reading.clauses (r : Reading) : List Clause :=
  r.boost?.toList.map Operation.boost ++ r.assigned.map Operation.adjust ++
    r.evaluator?.toList.map Evaluator.clause ++ r.methods.filterMap Item.clause? ++
    r.check?.toList.map Operation.check ++ r.sign?.toList.map Operation.adjust

section Operations

variable {α : Type} {f : TokenKind → Option α} {kinds : List TokenKind}
  (hf : ∀ k, (f k).isSome = true ↔ k ∈ kinds)

include hf

private theorem operation?_eq_some {ts rest : List Token} {a : α} {n : Token}
    (h : operation? f ts = some (a, n, rest)) :
    ∃ o : Operation, o.Of kinds ∧ ts = o.tokens ++ rest := by
  match ts with
  | [] => simp [operation?] at h
  | [t] => simp [operation?] at h
  | t :: n' :: rest' =>
    cases ha : f t.kind with
    | none => simp [operation?, ha] at h
    | some a' =>
      have kind : t.kind ∈ kinds := (hf _).mp (by rw [ha, Option.isSome_some])
      simp only [operation?, ha] at h
      split at h
      · next hn =>
        cases h
        exact ⟨⟨t, n⟩, ⟨kind, hn⟩, rfl⟩
      · contradiction

private theorem operation?_eq_none {ts : List Token} (h : ¬StartsOperation kinds ts) :
    operation? f ts = none := by
  by_contra hne
  obtain ⟨⟨a, n, rest⟩, hs⟩ := Option.ne_none_iff_exists'.mp hne
  obtain ⟨o, of, same⟩ := operation?_eq_some hf hs
  exact h ⟨o, of, rest, same.symm⟩

private theorem operation?_optional {o? : Option Operation} {rest : List Token}
    (h : ∀ o ∈ o?, o.Of kinds) (hg : o? = none → ¬StartsOperation kinds rest) :
    operation? f (optional o? ++ rest) =
      o?.bind fun o ↦ (f o.operator.kind).map fun a ↦ (a, o.amount, rest) := by
  cases o? with
  | none => exact operation?_eq_none hf (hg rfl)
  | some o =>
    have of := h o rfl
    obtain ⟨a, ha⟩ := Option.isSome_iff_exists.mp ((hf _).mpr of.1)
    simp [operation?, optional, Operation.tokens, ha, of.2]

end Operations

private theorem boostClause_eq {o? : Option Operation} {rest : List Token}
    (h : ∀ o ∈ o?, o.Of arithmetic) (hg : o? = none → ¬StartsOperation arithmetic rest) :
    boostClause (optional o? ++ rest) = (o?.toList.map Operation.boost, rest) := by
  unfold boostClause
  rw [operation?_optional isSome_arithmetic? h hg]
  cases o? with
  | none => rfl
  | some o =>
    obtain ⟨a, ha⟩ := Option.isSome_iff_exists.mp ((isSome_arithmetic? _).mpr (h o rfl).1)
    simp only [Option.bind_some, ha, Option.map_some, Option.toList_some, List.map_singleton,
      Operation.boost]

private theorem checkClause_eq {o? : Option Operation} {rest : List Token}
    (h : ∀ o ∈ o?, o.Of comparisons) (hg : o? = none → ¬StartsOperation comparisons rest) :
    checkClause (optional o? ++ rest) = (o?.toList.map Operation.check, rest) := by
  unfold checkClause
  rw [operation?_optional isSome_comparison? h hg]
  cases o? with
  | none => rfl
  | some o =>
    obtain ⟨a, ha⟩ := Option.isSome_iff_exists.mp ((isSome_comparison? _).mpr (h o rfl).1)
    simp only [Option.bind_some, ha, Option.map_some, Option.toList_some, List.map_singleton,
      Operation.check]

private theorem signClause_eq {o? : Option Operation} (h : ∀ o ∈ o?, o.Of signs) :
    signClause (optional o?) = (o?.toList.map Operation.adjust, []) := by
  have nothing : o? = none → ¬StartsOperation signs [] := fun _ ↦
    not_startsOperation_of_length Nat.two_pos
  unfold signClause
  rw [← List.append_nil (optional o?), operation?_optional isSome_sign? h nothing]
  cases o? with
  | none => rfl
  | some o =>
    obtain ⟨a, ha⟩ := Option.isSome_iff_exists.mp ((isSome_sign? _).mpr (h o rfl).1)
    simp only [Option.bind_some, ha, Option.map_some, Option.toList_some, List.map_singleton,
      Operation.adjust, anySign?]
    rfl

private theorem assignedClauses_of_not_starts {ts : List Token}
    (h : ¬StartsOperation assignedSigns ts) : assignedClauses ts = ([], ts) := by
  match ts with
  | [] => rfl
  | [t] => rfl
  | t :: n :: rest =>
    cases ha : t.kind.assignedSign? with
    | none => simp only [assignedClauses, ha]
    | some negative =>
      have kind : t.kind ∈ assignedSigns :=
        (isSome_assignedSign? _).mp (by rw [ha, Option.isSome_some])
      have hn : n.kind ≠ .integer := fun hn ↦ h (startsOperation_cons_cons.mpr ⟨kind, hn⟩)
      simp only [assignedClauses, ha, if_neg hn]

private theorem assignedClauses_eq {os : List Operation} {rest : List Token}
    (h : ∀ o ∈ os, o.Of assignedSigns) (hg : ¬StartsOperation assignedSigns rest) :
    assignedClauses (os.flatMap Operation.tokens ++ rest) = (os.map Operation.adjust, rest) := by
  induction os with
  | nil => exact assignedClauses_of_not_starts hg
  | cons o os ih =>
    have of := h o List.mem_cons_self
    obtain ⟨negative, ha⟩ := Option.isSome_iff_exists.mp ((isSome_assignedSign? _).mpr of.1)
    have any : anySign? o.operator.kind = some negative := by
      rw [anySign?, ha]
      revert ha
      cases o.operator.kind <;> simp [TokenKind.sign?, TokenKind.assignedSign?]
    rw [List.flatMap_cons, List.append_assoc, Operation.tokens, List.map_cons, Operation.adjust,
      any]
    simp only [List.cons_append, List.nil_append, assignedClauses, ha, of.2, if_true,
      ih fun o ho ↦ h o (List.mem_cons_of_mem _ ho)]
    rfl

private theorem integer?_eq {n? : Option Token} {rest : List Token}
    (h : ∀ n ∈ n?, n.kind = .integer) (hg : n? = none → ¬Starts [.integer] rest) :
    integer? (n?.toList ++ rest) = n? := by
  cases n? with
  | none =>
    cases rest with
    | nil => rfl
    | cons t rest =>
      have hne : t.kind ≠ .integer := fun ht ↦ hg rfl (starts_cons.mpr (by simp [ht]))
      exact if_neg hne
  | some n => exact if_pos (h n rfl)

private theorem evaluatorClause_eq {e? : Option Evaluator} {rest : List Token}
    (h : ∀ e ∈ e?, e.WellFormed) (hg : e? = none → ¬Starts comparisons rest)
    (hn : ∀ e ∈ e?, e.amount? = none → ¬Starts [.integer] rest) :
    evaluatorClause (e?.toList.flatMap Evaluator.tokens ++ rest) =
      (e?.toList.map Evaluator.clause, rest) := by
  cases e? with
  | none =>
    have none : (rest.head?.bind fun t ↦ t.kind.comparison?) = none := by
      by_contra hne
      obtain ⟨c, hc⟩ := Option.ne_none_iff_exists'.mp hne
      obtain ⟨t, ht, hc⟩ := Option.bind_eq_some_iff.mp hc
      exact hg rfl ⟨t, ht, (isSome_comparison? _).mp (by rw [hc, Option.isSome_some])⟩
    unfold evaluatorClause
    rw [Option.toList_none, List.flatMap_nil, List.nil_append, none]
    rfl
  | some e =>
    obtain ⟨c, hc⟩ := Option.isSome_iff_exists.mp ((isSome_comparison? _).mpr (h e rfl).1)
    have threshold := integer?_eq (h e rfl).2 (hn e rfl)
    have tokens : (some e).toList.flatMap Evaluator.tokens ++ rest =
        e.operator :: (e.amount?.toList ++ rest) := by
      simp [Evaluator.tokens]
    unfold evaluatorClause
    rw [tokens, List.head?_cons, Option.bind_some, hc]
    simp only [List.drop_succ_cons, List.drop_zero, threshold, Option.toList_some,
      List.map_singleton, Evaluator.clause, hc, Option.getD_some, Nat.add_comm 1,
      List.drop_left]

private theorem argument_eq {α : Type} {f : TokenKind → Option α} {kinds : List TokenKind}
    (hf : ∀ k, (f k).isSome = true ↔ k ∈ kinds) {i : Item} {rest : List Token}
    (hw : ∀ o ∈ i.operator?, o.kind ∈ kinds) (hn : ∀ n ∈ i.amount?, n.kind = .integer)
    (hg : i.operator? = none → ¬Starts kinds (i.amount?.toList ++ rest))
    (hgn : i.amount? = none → ¬Starts [.integer] rest) :
    argument f (i.argument ++ rest) =
      ⟨i.operator?.bind fun o ↦ f o.kind, i.amount?, i.argument.length⟩ := by
  have amount := integer?_eq hn hgn
  unfold Item.argument argument
  cases ho : i.operator? with
  | none =>
    have none : ((i.amount?.toList ++ rest).head?.bind fun t ↦ f t.kind) = none := by
      by_contra hne
      obtain ⟨a, ha⟩ := Option.ne_none_iff_exists'.mp hne
      obtain ⟨t, ht, ha⟩ := Option.bind_eq_some_iff.mp ha
      exact hg ho ⟨t, ht, (hf _).mp (by rw [ha, Option.isSome_some])⟩
    rw [Option.toList_none, List.nil_append, none]
    simp only [amount, Option.bind_none]
  | some o =>
    obtain ⟨a, ha⟩ := Option.isSome_iff_exists.mp ((hf _).mpr (hw o ho))
    rw [Option.toList_some, List.append_assoc, List.singleton_append, List.head?_cons,
      Option.bind_some, ha]
    simp only [List.drop_succ_cons, List.drop_zero, amount, List.singleton_append,
      List.length_cons, Nat.add_comm 1]

private theorem selectionClause_eq (kind : TokenKind) (clause : Option Token → Clause)
    {n? : Option Token} {rest : List Token} (hn : ∀ n ∈ n?, n.kind = .integer)
    (hg : n? = none → ¬Starts [.integer] rest) (hc : n? = none → ¬Starts comparisons rest) :
    selectionClause kind clause (n?.toList ++ rest) = (clause n?, n?.toList.length) := by
  have count := integer?_eq hn hg
  unfold selectionClause
  rw [count]
  cases n? with
  | some n =>
    have kind : n.kind.comparison?.isSome = false := by
      rw [hn n rfl]
      rfl
    simp [kind]
  | none =>
    cases rest with
    | nil => rfl
    | cons t rest =>
      have kind : t.kind.comparison?.isSome = false := by
        rw [Bool.eq_false_iff]
        exact fun ht ↦ hc rfl (starts_cons.mpr ((isSome_comparison? _).mp ht))
      simp [kind]

/-- The operators of what a method asks for. -/
private def operatorsOf : Method → List TokenKind
  | .boost => arithmetic
  | .adjust => signs ++ assignedSigns
  | .keep _ => []
  | .drop _ => []
  | .test _ => comparisons

private theorem operators_eq {k : TokenKind} {m : Method} (h : method? k = some m) :
    operators k = operatorsOf m := by
  cases k <;> cases h <;> rfl

/-- The letters of a boosting method. -/
theorem method?_eq_boost {k : TokenKind} : method? k = some .boost ↔ k = .boost := by
  cases k <;> simp [method?]

/-- The letters of an adjusting method. -/
theorem method?_eq_adjust {k : TokenKind} : method? k = some .adjust ↔ k = .adjust := by
  cases k <;> simp [method?]

/-- Letters that keep dice are those of a pool method. -/
theorem mem_pools_of_keep {k : TokenKind} {layer : Layer}
    (h : method? k = some (.keep layer)) : k ∈ pools := by
  cases k <;> cases h <;> decide

/-- Letters that drop dice are those of a pool method. -/
theorem mem_pools_of_drop {k : TokenKind} {layer : Layer}
    (h : method? k = some (.drop layer)) : k ∈ pools := by
  cases k <;> cases h <;> decide

private theorem argument_of_operators_eq_nil {i : Item}
    (h : ∀ o ∈ i.operator?, o.kind ∈ ([] : List TokenKind)) : i.argument = i.amount?.toList := by
  cases ho : i.operator? with
  | none => rw [Item.argument, ho, Option.toList_none, List.nil_append]
  | some o => exact absurd (h o ho) List.not_mem_nil

private theorem methodClause_eq {i : Item} {rest : List Token} {m : Method}
    (hm : method? i.letters.kind = some m) (fits : i.Fits rest) (greedy : i.Greedy rest) :
    methodClause i.letters.kind (i.argument ++ rest) m = (i.clauseOf m, i.argument.length) := by
  obtain ⟨⟨_, operator, amount⟩, compared⟩ := fits
  obtain ⟨noOperator, noAmount⟩ := greedy
  rw [operators_eq hm] at operator noOperator
  cases m with
  | boost =>
    rw [methodClause, argument_eq isSome_arithmetic? operator amount noOperator noAmount]
    rfl
  | adjust =>
    rw [methodClause, argument_eq isSome_anySign? operator amount noOperator noAmount]
    rfl
  | keep layer =>
    rw [methodClause, argument_of_operators_eq_nil operator]
    exact selectionClause_eq _ _ amount noAmount (compared (mem_pools_of_keep hm))
  | drop layer =>
    rw [methodClause, argument_of_operators_eq_nil operator]
    exact selectionClause_eq _ _ amount noAmount (compared (mem_pools_of_drop hm))
  | test t =>
    rw [methodClause, argument_eq isSome_comparison? operator amount noOperator noAmount]
    rfl

private theorem methodClauses_of_not_starts {ts : List Token} (h : ¬Starts methodLetters ts) :
    methodClauses 0 ts = ([], ts) := by
  cases ts with
  | nil => rfl
  | cons t ts =>
    have none : method? t.kind = none := by
      rw [← Option.not_isSome_iff_eq_none, isSome_method?]
      exact fun ht ↦ h (starts_cons.mpr ht)
    simp only [methodClauses, none]

private theorem methodClauses_eq {items : List Item} {rest : List Token}
    (fits : EachBefore rest Item.Fits items) (greedy : EachBefore rest Item.Greedy items)
    (h : ¬Starts methodLetters rest) :
    methodClauses 0 (items.flatMap Item.tokens ++ rest) = (items.filterMap Item.clause?, rest) := by
  induction items with
  | nil => exact methodClauses_of_not_starts h
  | cons i items ih =>
    obtain ⟨m, hm⟩ := Option.isSome_iff_exists.mp ((isSome_method? _).mpr fits.1.1.1)
    have clause : i.clause? = some (i.clauseOf m) := by rw [Item.clause?, hm, Option.map_some]
    have read := methodClause_eq hm fits.1 greedy.1
    rw [List.flatMap_cons, Item.tokens, List.append_assoc, List.cons_append]
    simp only [methodClauses, hm, read]
    rw [methodClauses_covered, List.drop_left, ih fits.2 greedy.2, List.filterMap_cons, clause]

/-- On the tokens of a greedy reading the cursor finds the clauses of the reading and leaves no
token. -/
theorem clauses_eq {r : Reading} (h : r.WellFormed) (g : r.Greedy) :
    clauses r.afterSides = (r.clauses, []) := by
  unfold clauses Reading.afterSides
  rw [boostClause_eq h.boost g.boost]
  simp only [Reading.afterBoost]
  rw [assignedClauses_eq h.assigned g.assigned]
  simp only [Reading.afterAssigned]
  rw [evaluatorClause_eq h.evaluator g.evaluator g.threshold]
  simp only [Reading.afterEvaluator]
  rw [methodClauses_eq h.methods g.arguments g.methods]
  simp only [Reading.afterMethods]
  rw [checkClause_eq h.check g.check]
  simp only [Reading.afterCheck]
  rw [signClause_eq h.sign, Reading.clauses]

private theorem exists_optional {α : Type} {f : TokenKind → Option α} {kinds : List TokenKind}
    (hf : ∀ k, (f k).isSome = true ↔ k ∈ kinds) (ts : List Token) :
    ∃ o? : Option Operation, (∀ o ∈ o?, o.Of kinds) ∧
      ts = optional o? ++ ((operation? f ts).elim ts fun x ↦ x.2.2) := by
  cases h : operation? f ts with
  | none => exact ⟨none, by rintro _ ⟨⟩, rfl⟩
  | some x =>
    obtain ⟨o, of, same⟩ := operation?_eq_some hf h
    refine ⟨some o, ?_, same⟩
    rintro _ ⟨⟩
    exact of

private theorem boostClause_snd (ts : List Token) :
    (boostClause ts).2 = (operation? TokenKind.arithmetic? ts).elim ts fun x ↦ x.2.2 := by
  unfold boostClause
  cases operation? TokenKind.arithmetic? ts <;> rfl

private theorem checkClause_snd (ts : List Token) :
    (checkClause ts).2 = (operation? TokenKind.comparison? ts).elim ts fun x ↦ x.2.2 := by
  unfold checkClause
  cases operation? TokenKind.comparison? ts <;> rfl

private theorem signClause_snd (ts : List Token) :
    (signClause ts).2 = (operation? TokenKind.sign? ts).elim ts fun x ↦ x.2.2 := by
  unfold signClause
  cases operation? TokenKind.sign? ts <;> rfl

private theorem exists_assigned (ts : List Token) :
    ∃ os : List Operation, (∀ o ∈ os, o.Of assignedSigns) ∧
      ts = os.flatMap Operation.tokens ++ (assignedClauses ts).2 := by
  induction ts using assignedClauses.induct with
  | case1 t n rest negative ha hn clauses left hl ih =>
    obtain ⟨os, of, same⟩ := ih
    have kind : t.kind ∈ assignedSigns :=
      (isSome_assignedSign? _).mp (by rw [ha, Option.isSome_some])
    refine ⟨⟨t, n⟩ :: os, List.forall_mem_cons.mpr ⟨⟨kind, hn⟩, of⟩, ?_⟩
    simp only [assignedClauses, ha, if_pos hn, List.flatMap_cons, Operation.tokens,
      List.cons_append, List.nil_append]
    rw [← same]
  | case2 t n rest negative ha hn =>
    refine ⟨[], by simp, ?_⟩
    simp only [assignedClauses, ha, if_neg hn, List.flatMap_nil, List.nil_append]
  | case3 t n rest ha =>
    refine ⟨[], by simp, ?_⟩
    simp only [assignedClauses, ha, List.flatMap_nil, List.nil_append]
  | case4 ts h =>
    refine ⟨[], by simp, ?_⟩
    rw [assignedClauses.eq_2 ts h]
    rfl

private theorem integer?_split (ts : List Token) :
    (∀ n ∈ integer? ts, n.kind = .integer) ∧
      ts = (integer? ts).toList ++ ts.drop (integer? ts).toList.length := by
  cases ts with
  | nil => exact ⟨by rintro _ ⟨⟩, rfl⟩
  | cons t ts =>
    by_cases ht : t.kind = .integer
    · have read : integer? (t :: ts) = some t := if_pos ht
      rw [read]
      refine ⟨?_, rfl⟩
      rintro _ ⟨⟩
      exact ht
    · have read : integer? (t :: ts) = none := if_neg ht
      rw [read]
      exact ⟨by rintro _ ⟨⟩, rfl⟩

private theorem exists_evaluator (ts : List Token) :
    ∃ e? : Option Evaluator, (∀ e ∈ e?, e.WellFormed) ∧
      ts = e?.toList.flatMap Evaluator.tokens ++ (evaluatorClause ts).2 := by
  cases hc : ts.head?.bind fun t ↦ t.kind.comparison? with
  | none =>
    refine ⟨none, by rintro _ ⟨⟩, ?_⟩
    unfold evaluatorClause
    rw [hc]
    rfl
  | some c =>
    obtain ⟨t, ht, ha⟩ := Option.bind_eq_some_iff.mp hc
    obtain ⟨rest, rfl⟩ : ∃ rest, ts = t :: rest := ⟨_, List.eq_cons_of_mem_head? ht⟩
    obtain ⟨integer, split⟩ := integer?_split rest
    refine ⟨some ⟨t, integer? rest⟩, ?_, ?_⟩
    · rintro _ ⟨⟩
      exact ⟨(isSome_comparison? _).mp (by rw [ha, Option.isSome_some]), integer⟩
    · unfold evaluatorClause
      rw [hc]
      simp only [Option.toList_some, List.flatMap_singleton, Evaluator.tokens, List.cons_append,
        Nat.add_comm 1, List.drop_succ_cons, List.drop_zero]
      rw [← split]

private theorem exists_argument {α : Type} {f : TokenKind → Option α} {kinds : List TokenKind}
    (hf : ∀ k, (f k).isSome = true ↔ k ∈ kinds) (ts : List Token) :
    ∃ operator? amount? : Option Token, (∀ o ∈ operator?, o.kind ∈ kinds) ∧
      (∀ n ∈ amount?, n.kind = .integer) ∧
      ts = operator?.toList ++ amount?.toList ++ ts.drop (argument f ts).size := by
  unfold argument
  cases hc : ts.head?.bind fun t ↦ f t.kind with
  | none =>
    obtain ⟨integer, split⟩ := integer?_split ts
    exact ⟨none, integer? ts, by rintro _ ⟨⟩, integer, split⟩
  | some a =>
    obtain ⟨t, ht, ha⟩ := Option.bind_eq_some_iff.mp hc
    obtain ⟨rest, rfl⟩ : ∃ rest, ts = t :: rest := ⟨_, List.eq_cons_of_mem_head? ht⟩
    obtain ⟨integer, split⟩ := integer?_split rest
    refine ⟨some t, integer? rest, ?_, integer, ?_⟩
    · rintro _ ⟨⟩
      exact (hf _).mp (by rw [ha, Option.isSome_some])
    · simp only [List.drop_succ_cons, List.drop_zero, Option.toList_some, List.nil_append,
        List.cons_append, Nat.add_comm 1]
      rw [← split]

private theorem operators_eq_nil_of_mem_pools {k : TokenKind} (h : k ∈ pools) :
    operators k = [] := by
  revert k
  decide

/-- What the cursor takes after the letters of a method. -/
private structure Taken (kind : TokenKind) (ts after : List Token)
    (operator? amount? : Option Token) : Prop where
  operator : ∀ o ∈ operator?, o.kind ∈ operators kind
  amount : ∀ n ∈ amount?, n.kind = .integer
  pool : kind ∈ pools → amount? = none → ¬Starts comparisons after
  split : ts = operator?.toList ++ amount?.toList ++ after

private theorem taken_of_argument {α : Type} {f : TokenKind → Option α} {kind : TokenKind}
    (hf : ∀ k, (f k).isSome = true ↔ k ∈ operators kind) (hk : kind ∉ pools) (ts : List Token) :
    ∃ operator? amount?, Taken kind ts (ts.drop (argument f ts).size) operator? amount? := by
  obtain ⟨operator?, amount?, operator, amount, split⟩ := exists_argument hf ts
  exact ⟨operator?, amount?, operator, amount, fun h ↦ absurd h hk, split⟩

private theorem taken_of_selection {kind : TokenKind} {clause : Option Token → Clause}
    {ts : List Token} (h : ∀ k t, (selectionClause kind clause ts).1 ≠ .compared k t) :
    ∃ operator? amount?,
      Taken kind ts (ts.drop (selectionClause kind clause ts).2) operator? amount? := by
  obtain ⟨integer, split⟩ := integer?_split ts
  have compared : ¬Starts comparisons ts := by
    rintro ⟨t, ht, hk⟩
    obtain ⟨rest, rfl⟩ : ∃ rest, ts = t :: rest := ⟨_, List.eq_cons_of_mem_head? ht⟩
    apply h kind t
    simp [selectionClause, (isSome_comparison? _).mpr hk]
  have size : (selectionClause kind clause ts).2 = (integer? ts).toList.length := by
    cases ts with
    | nil => rfl
    | cons t rest =>
      have hk : ¬t.kind.comparison?.isSome = true := fun hk ↦
        compared (starts_cons.mpr ((isSome_comparison? _).mp hk))
      simp only [selectionClause, if_neg hk]
  rw [size]
  refine ⟨none, integer? ts, by rintro _ ⟨⟩, integer, ?_, split⟩
  intro _ hn
  rw [hn]
  exact compared

private theorem exists_taken {kind : TokenKind} {m : Method} (hm : method? kind = some m)
    {ts : List Token} (h : ∀ k t, (methodClause kind ts m).1 ≠ .compared k t) :
    ∃ operator? amount?, Taken kind ts (ts.drop (methodClause kind ts m).2) operator? amount? := by
  have same := operators_eq hm
  have pool (hne : operatorsOf m ≠ []) : kind ∉ pools := fun hk ↦
    hne (same.symm.trans (operators_eq_nil_of_mem_pools hk))
  cases m with
  | boost =>
    apply taken_of_argument _ (pool (by decide))
    rw [same]
    exact isSome_arithmetic?
  | adjust =>
    apply taken_of_argument _ (pool (by decide))
    rw [same]
    exact isSome_anySign?
  | keep layer => exact taken_of_selection h
  | drop layer => exact taken_of_selection h
  | test t =>
    apply taken_of_argument _ (pool (List.cons_ne_nil _ _))
    rw [same]
    exact isSome_comparison?

private theorem exists_methods (covered : Nat) (ts : List Token)
    (h : ∀ k t, Clause.compared k t ∉ (methodClauses covered ts).1) :
    ∃ items : List Item, EachBefore (methodClauses covered ts).2 Item.Fits items ∧
      ts.drop covered = items.flatMap Item.tokens ++ (methodClauses covered ts).2 := by
  induction covered, ts using methodClauses.induct with
  | case1 covered => exact ⟨[], trivial, by simp [methodClauses]⟩
  | case2 n head ts ih => exact ih h
  | case3 t ts m hm clause used hc clauses left hl ih =>
    have read : methodClauses 0 (t :: ts) = (clause :: clauses, left) := by
      simp only [methodClauses, hm, hc, hl]
    rw [hl] at ih
    rw [read] at h ⊢
    obtain ⟨items, fits, rest⟩ := ih fun k t ht ↦ h k t (List.mem_cons_of_mem _ ht)
    have notCompared : ∀ k t', (methodClause t.kind ts m).1 ≠ .compared k t' := by
      rw [hc]
      intro k t' same
      exact h k t' (same ▸ List.mem_cons_self)
    obtain ⟨operator?, amount?, taken⟩ := exists_taken hm notCompared
    rw [hc, rest] at taken
    have letters : t.kind ∈ methodLetters := (isSome_method? _).mp (by rw [hm, Option.isSome_some])
    refine ⟨⟨t, operator?, amount?⟩ :: items,
      ⟨⟨⟨letters, taken.operator, taken.amount⟩, taken.pool⟩, fits⟩, ?_⟩
    conv_lhs => rw [List.drop_zero, taken.split]
    simp [Item.tokens, Item.argument]
  | case4 t ts hm =>
    have read : methodClauses 0 (t :: ts) = ([], t :: ts) := by
      simp only [methodClauses, hm]
    rw [read]
    exact ⟨[], trivial, rfl⟩

/-- Tokens of which the cursor leaves none make a sentence with a head, unless a method that takes
a count is compared. -/
theorem sentence_of_clauses {count dice sides : Token} {ts : List Token}
    (hc : count.kind = .integer) (hd : dice.kind = .dice)
    (hs : sides.kind = .integer ∨ sides.kind = .faceList) (left : (clauses ts).2 = [])
    (h : ∀ k t, Clause.compared k t ∉ (clauses ts).1) :
    Sentence (count :: dice :: sides :: ts) := by
  let ts₁ := (boostClause ts).2
  let ts₂ := (assignedClauses ts₁).2
  let ts₃ := (evaluatorClause ts₂).2
  let ts₄ := (methodClauses 0 ts₃).2
  let ts₅ := (checkClause ts₄).2
  have compared : ∀ k t, Clause.compared k t ∉ (methodClauses 0 ts₃).1 := by
    intro k t ht
    apply h k t
    change _ ∈ _ ++ (methodClauses 0 ts₃).1 ++ (checkClause ts₄).1 ++ (signClause ts₅).1
    rw [List.mem_append, List.mem_append, List.mem_append]
    exact .inl (.inl (.inr ht))
  obtain ⟨boost?, boost, same₁⟩ := exists_optional isSome_arithmetic? ts
  obtain ⟨assigned, signed, same₂⟩ := exists_assigned ts₁
  obtain ⟨evaluator?, evaluator, same₃⟩ := exists_evaluator ts₂
  obtain ⟨methods, fits, same₄⟩ := exists_methods 0 ts₃ compared
  obtain ⟨check?, check, same₅⟩ := exists_optional isSome_comparison? ts₄
  obtain ⟨sign?, sign, same₆⟩ := exists_optional isSome_sign? ts₅
  rw [← boostClause_snd] at same₁
  rw [← checkClause_snd] at same₅
  rw [← signClause_snd, show (signClause ts₅).2 = [] from left, List.append_nil] at same₆
  let r : Reading := ⟨count, dice, sides, boost?, assigned, evaluator?, methods, check?, sign?⟩
  have afterMethods : ts₄ = r.afterMethods := same₅.trans (congrArg _ same₆)
  have afterEvaluator : ts₃ = r.afterEvaluator := same₄.trans (congrArg _ afterMethods)
  have afterAssigned : ts₂ = r.afterAssigned := same₃.trans (congrArg _ afterEvaluator)
  have afterBoost : ts₁ = r.afterBoost := same₂.trans (congrArg _ afterAssigned)
  have afterSides : ts = r.afterSides := same₁.trans (congrArg _ afterBoost)
  refine ⟨r, ⟨hc, hd, hs, boost, signed, evaluator, ?_, check, sign⟩, ?_⟩
  · rw [← afterMethods]
    exact fits
  · rw [afterSides]
    rfl

end DicePool.Grammar
