import DicePool.Proofs.Expression.Parse

/-!
# Cutting off what is left

A reading that leaves tokens does not hang on how many of them there are: where a part is left out
or ends, the next token decides so, and no next token decides the same.
-/

namespace DicePool.Expression

open Grammar

/-- A part of the reading of clauses. -/
abbrev Stage : Type := List Token → List Clause × List Token

namespace Stage

/-- One part of the reading after the other. -/
def andThen (f g : Stage) : Stage := fun ts ↦ ((f ts).1 ++ (g (f ts).2).1, (g (f ts).2).2)

/-- Whether a part reads clauses from the first tokens and reads the same whatever is cut off from
the rest. Only where no integer follows does it end in a `d`. -/
structure Reads (f : Stage) (cs : List Clause) (used rest : List Token) : Prop where
  cut : ∀ left, left <+: rest → f (used ++ left) = (cs, left)
  last : ∀ t ∈ used.getLast?, t.kind = .dice → ¬Starts [.integer] rest

/-- Whether a part always reads its clauses from the first tokens. -/
def Cuttable (f : Stage) : Prop := ∀ ts, ∃ cs used rest, ts = used ++ rest ∧ f.Reads cs used rest

variable {f g : Stage} {cs cs' : List Clause} {used used' rest : List Token}

/-- What a part reads is its result. -/
theorem Reads.eq (h : f.Reads cs used rest) : f (used ++ rest) = (cs, rest) :=
  h.cut rest List.prefix_rfl

/-- What two parts read after each other. -/
theorem Reads.andThen (hf : f.Reads cs used (used' ++ rest)) (hg : g.Reads cs' used' rest) :
    (f.andThen g).Reads (cs ++ cs') (used ++ used') rest := by
  constructor
  · intro left hl
    have first := hf.cut (used' ++ left) ((List.prefix_append_right_inj used').mpr hl)
    simp only [Stage.andThen, List.append_assoc, first, hg.cut left hl]
  · intro t ht
    cases used' with
    | nil => exact hf.last t (by simpa using ht)
    | cons t' used' => exact hg.last t (by simpa [List.getLast?_append] using ht)

/-- Parts that can be cut can be cut together. -/
theorem Cuttable.andThen (hf : f.Cuttable) (hg : g.Cuttable) : (f.andThen g).Cuttable := by
  intro ts
  obtain ⟨cs, used, ts, rfl, first⟩ := hf ts
  obtain ⟨cs', used', rest, rfl, second⟩ := hg ts
  exact ⟨cs ++ cs', used ++ used', rest, (List.append_assoc _ _ _).symm, first.andThen second⟩

/-- A part that takes no `d` reads its clauses from the first tokens if it does so without most of
the rest. -/
theorem reads_of_ne_dice (h : ∀ left, left <+: rest → f (used ++ left) = (cs, left))
    (ne : ∀ t ∈ used, t.kind ≠ .dice) : f.Reads cs used rest :=
  ⟨h, fun t ht dice ↦ absurd dice (ne t (List.mem_of_getLast? ht))⟩

/-- A part that is left out takes no tokens. -/
theorem reads_nil (h : ∀ left, left <+: rest → f left = (cs, left)) : f.Reads cs [] rest :=
  reads_of_ne_dice h (by simp)

end Stage

private theorem operation?_eq_some_iff {α : Type} {g : TokenKind → Option α} {ts rest : List Token}
    {a : α} {n : Token} : operation? g ts = some (a, n, rest) ↔
      ∃ t, ts = t :: n :: rest ∧ g t.kind = some a ∧ n.kind = .integer := by
  match ts with
  | [] => simp [operation?]
  | [t] => simp [operation?]
  | t :: n' :: ts =>
    simp only [operation?, List.cons.injEq]
    constructor
    · intro h
      split at h
      · next ha =>
        split at h
        · next hn =>
          cases h
          exact ⟨t, ⟨rfl, rfl, rfl⟩, ha, hn⟩
        · contradiction
      · contradiction
    · rintro ⟨_, ⟨rfl, rfl, rfl⟩, ha, hn⟩
      rw [ha]
      exact if_pos hn

private theorem operation?_of_prefix_none {α : Type} {g : TokenKind → Option α} {ts left : List Token}
    (h : operation? g ts = none) (hl : left <+: ts) : operation? g left = none := by
  obtain ⟨more, rfl⟩ := hl
  by_contra hne
  obtain ⟨⟨a, n, rest⟩, hs⟩ := Option.ne_none_iff_exists'.mp hne
  obtain ⟨t, rfl, ha, hn⟩ := operation?_eq_some_iff.mp hs
  have found : operation? g (t :: n :: rest ++ more) = some (a, n, rest ++ more) :=
    operation?_eq_some_iff.mpr ⟨t, rfl, ha, hn⟩
  rw [h] at found
  contradiction

/-- The part that reads an operation of given kinds. -/
private def operationStage {α : Type} (g : TokenKind → Option α) (clause : α → Token → Clause) :
    Stage := fun ts ↦
  match operation? g ts with
  | some (a, n, rest) => ([clause a n], rest)
  | none => ([], ts)

private theorem cuttable_operationStage {α : Type} (g : TokenKind → Option α)
    (clause : α → Token → Clause) : (operationStage g clause).Cuttable := by
  intro ts
  cases h : operation? g ts with
  | none =>
    refine ⟨[], [], ts, rfl, Stage.reads_nil fun left hl ↦ ?_⟩
    rw [operationStage, operation?_of_prefix_none h hl]
  | some found =>
    obtain ⟨a, n, rest⟩ := found
    obtain ⟨t, rfl, ha, hn⟩ := operation?_eq_some_iff.mp h
    refine ⟨[clause a n], [t, n], rest, rfl, fun left _ ↦ ?_, by simp [hn]⟩
    have found : operation? g (t :: n :: left) = some (a, n, left) :=
      operation?_eq_some_iff.mpr ⟨t, rfl, ha, hn⟩
    simp only [operationStage, List.cons_append, List.nil_append, found]

private theorem operationStage_boost :
    boostClause = operationStage TokenKind.arithmetic? fun o n ↦ .boost (some o) (some n) := by
  funext ts
  unfold boostClause operationStage
  cases operation? TokenKind.arithmetic? ts <;> rfl

private theorem operationStage_check :
    checkClause = operationStage TokenKind.comparison? fun c n ↦
      .test .totalCheck (some c) (some n) := by
  funext ts
  unfold checkClause operationStage
  cases operation? TokenKind.comparison? ts <;> rfl

private theorem operationStage_sign :
    signClause = operationStage TokenKind.sign? fun negative n ↦ .adjust negative (some n) := by
  funext ts
  unfold signClause operationStage
  cases operation? TokenKind.sign? ts <;> rfl

private theorem cuttable_boostClause : Stage.Cuttable boostClause :=
  operationStage_boost ▸ cuttable_operationStage _ _

private theorem cuttable_checkClause : Stage.Cuttable checkClause :=
  operationStage_check ▸ cuttable_operationStage _ _

private theorem cuttable_signClause : Stage.Cuttable signClause :=
  operationStage_sign ▸ cuttable_operationStage _ _

private theorem assignedClauses_of_none {ts : List Token}
    (h : operation? TokenKind.assignedSign? ts = none) : assignedClauses ts = ([], ts) := by
  match ts with
  | [] => rfl
  | [t] => rfl
  | t :: n :: rest =>
    simp only [operation?] at h
    unfold assignedClauses
    split
    · next ha =>
      rw [ha] at h
      split
      · next hn => simp [hn] at h
      · rfl
    · rfl

private theorem cuttable_assignedClauses : Stage.Cuttable assignedClauses := by
  intro ts
  cases h : operation? TokenKind.assignedSign? ts with
  | none =>
    exact ⟨[], [], ts, rfl, Stage.reads_nil fun left hl ↦
      assignedClauses_of_none (operation?_of_prefix_none h hl)⟩
  | some found =>
    obtain ⟨negative, n, rest⟩ := found
    obtain ⟨t, rfl, ha, hn⟩ := operation?_eq_some_iff.mp h
    obtain ⟨cs, used, rest, rfl, reads⟩ := cuttable_assignedClauses rest
    refine ⟨.adjust negative (some n) :: cs, t :: n :: used, rest, rfl, fun left hl ↦ ?_, ?_⟩
    · simp only [List.cons_append, assignedClauses, ha, hn, if_true, reads.cut left hl]
    · intro t' ht
      cases used with
      | nil =>
        simp only [List.getLast?_cons_cons, List.getLast?_singleton, Option.mem_some_iff] at ht
        simp [← ht, hn]
      | cons t'' used => exact reads.last t' (by simpa [List.getLast?_cons] using ht)
termination_by ts => ts.length

private theorem head?_of_prefix {left ts : List Token} (h : left <+: ts) :
    left = [] ∨ left.head? = ts.head? := by
  obtain ⟨more, rfl⟩ := h
  cases left <;> simp

private theorem not_starts_of_prefix_not {kinds : List TokenKind} {left ts : List Token}
    (h : ¬Starts kinds ts) (hl : left <+: ts) : ¬Starts kinds left := by
  rintro ⟨t, ht, hk⟩
  rcases head?_of_prefix hl with rfl | same
  · contradiction
  · exact h ⟨t, same ▸ ht, hk⟩

private theorem integer?_eq_none_iff {ts : List Token} :
    integer? ts = none ↔ ¬Starts [.integer] ts := by
  cases ts <;> simp [integer?]

/-- What an optional integer takes. -/
private theorem integer?_cut (ts : List Token) :
    ∃ rest, ts = (integer? ts).toList ++ rest ∧
      (∀ left, left <+: rest → integer? ((integer? ts).toList ++ left) = integer? ts) ∧
      (∀ n ∈ (integer? ts).toList, n.kind ≠ .dice) ∧
      (integer? ts = none → ¬Starts [.integer] rest) := by
  by_cases h : Starts [.integer] ts
  · obtain ⟨n, hn, hk⟩ := h
    obtain ⟨rest, rfl⟩ := List.head?_eq_some_iff.mp hn
    have integer : n.kind = .integer := List.mem_singleton.mp hk
    simp only [integer?, if_pos integer]
    exact ⟨rest, rfl, fun left _ ↦ if_pos integer, by simp [integer], by simp⟩
  · rw [integer?_eq_none_iff.mpr h]
    exact ⟨ts, rfl, fun left hl ↦ integer?_eq_none_iff.mpr (not_starts_of_prefix_not h hl), by simp,
      fun _ ↦ h⟩

private theorem cuttable_evaluatorClause : Stage.Cuttable evaluatorClause := by
  intro ts
  cases h : ts.head?.bind fun t ↦ t.kind.comparison? with
  | none =>
    refine ⟨[], [], ts, rfl, Stage.reads_nil fun left hl ↦ ?_⟩
    rcases head?_of_prefix hl with rfl | same
    · rfl
    · rw [evaluatorClause, same, h]
  | some c =>
    obtain ⟨t, ht, hc⟩ := Option.bind_eq_some_iff.mp h
    obtain ⟨ts, rfl⟩ := List.head?_eq_some_iff.mp ht
    obtain ⟨rest, tokens, cut, ne, _⟩ := integer?_cut ts
    refine ⟨[.evaluator c (integer? ts)], t :: (integer? ts).toList, rest,
      congrArg (t :: ·) tokens, Stage.reads_of_ne_dice (fun left hl ↦ ?_) ?_⟩
    · simp only [evaluatorClause, List.cons_append, List.head?_cons, Option.bind_some, hc,
        List.drop_succ_cons, List.drop_zero, cut left hl, Nat.add_comm 1, List.drop_left]
    · refine List.forall_mem_cons.mpr ⟨fun dice ↦ ?_, ne⟩
      rw [dice] at hc
      contradiction

/-- Whether the reading of an argument after the letters of a method takes it from the first tokens
and reads the same whatever is cut off from the rest. -/
private def TakesArgument (kind : TokenKind) (read : List Token → Clause × Nat) : Prop :=
  ∀ ts, ∃ c used rest, ts = used ++ rest ∧
    (∀ left, left <+: rest → read (used ++ left) = (c, used.length)) ∧
    (∀ t ∈ used, t.kind ≠ .dice) ∧ (kind = .dice → used = [] → ¬Starts [.integer] rest)

private theorem takesArgument_argument {α : Type} {g : TokenKind → Option α} {kind : TokenKind}
    (hg : g .dice = none) (hk : kind ≠ .dice) (clause : Option α → Option Token → Clause) :
    TakesArgument kind fun ts ↦
      (clause (argument g ts).operator (argument g ts).amount, (argument g ts).size) := by
  intro ts
  cases h : ts.head?.bind fun t ↦ g t.kind with
  | none =>
    obtain ⟨rest, tokens, cut, ne, _⟩ := integer?_cut ts
    have same (left : List Token) (hl : left <+: rest) :
        (((integer? ts).toList ++ left).head?.bind fun t ↦ g t.kind) = none := by
      have whole : (integer? ts).toList ++ left <+: ts := by
        conv_rhs => rw [tokens]
        exact (List.prefix_append_right_inj _).mpr hl
      rcases head?_of_prefix whole with nothing | head
      · rw [nothing]
        rfl
      · rw [head, h]
    refine ⟨clause none (integer? ts), (integer? ts).toList, rest, tokens, fun left hl ↦ ?_, ne,
      fun dice ↦ absurd dice hk⟩
    simp only [argument, same left hl, cut left hl]
  | some o =>
    obtain ⟨t, ht, ho⟩ := Option.bind_eq_some_iff.mp h
    obtain ⟨ts, rfl⟩ := List.head?_eq_some_iff.mp ht
    obtain ⟨rest, tokens, cut, ne, _⟩ := integer?_cut ts
    refine ⟨clause (some o) (integer? ts), t :: (integer? ts).toList, rest,
      congrArg (t :: ·) tokens, fun left hl ↦ ?_, ?_, fun dice ↦ absurd dice hk⟩
    · simp only [argument, List.cons_append, List.head?_cons, Option.bind_some, ho,
        List.drop_succ_cons, List.drop_zero, cut left hl, List.length_cons, Nat.add_comm 1]
    · refine List.forall_mem_cons.mpr ⟨fun dice ↦ ?_, ne⟩
      rw [dice, hg] at ho
      contradiction

private theorem selectionClause_of_not_starts {kind : TokenKind} {clause : Option Token → Clause}
    {ts : List Token} (h : ¬Starts comparisons ts) :
    selectionClause kind clause ts = (clause (integer? ts), (integer? ts).toList.length) := by
  cases ts with
  | nil => rfl
  | cons t ts => exact if_neg (mt (isSome_comparison? t.kind).mp (mt starts_cons.mpr h))

/-- A comparison in the place of a count is taken as well. -/
private theorem takesArgument_selectionClause (kind : TokenKind)
    (clause : Option Token → Clause) : TakesArgument kind (selectionClause kind clause) := by
  intro ts
  by_cases h : Starts comparisons ts
  · obtain ⟨t, ht, hc⟩ := h
    obtain ⟨ts, rfl⟩ := List.head?_eq_some_iff.mp ht
    refine ⟨.compared kind t, [t], ts, rfl, fun left _ ↦ ?_, ?_, by simp⟩
    · exact if_pos ((isSome_comparison? _).mpr hc)
    · simp only [List.mem_singleton, forall_eq]
      intro dice
      rw [dice] at hc
      revert hc
      decide
  · obtain ⟨rest, tokens, cut, ne, none⟩ := integer?_cut ts
    refine ⟨clause (integer? ts), (integer? ts).toList, rest, tokens, fun left hl ↦ ?_, ne,
      fun _ nothing ↦ none (by simpa using nothing)⟩
    have whole : (integer? ts).toList ++ left <+: ts := by
      conv_rhs => rw [tokens]
      exact (List.prefix_append_right_inj _).mpr hl
    rw [selectionClause_of_not_starts (not_starts_of_prefix_not h whole), cut left hl]

private theorem takesArgument_methodClause {kind : TokenKind} {m : Method}
    (hm : method? kind = some m) : TakesArgument kind fun ts ↦ methodClause kind ts m := by
  cases m with
  | boost =>
    exact takesArgument_argument rfl (by rintro rfl; cases hm) .boost
  | adjust =>
    exact takesArgument_argument rfl (by rintro rfl; cases hm) fun o n? ↦ .adjust (o.getD false) n?
  | keep layer => exact takesArgument_selectionClause kind (.keep layer)
  | drop layer => exact takesArgument_selectionClause kind (.drop layer)
  | test t => exact takesArgument_argument rfl (by rintro rfl; cases hm) (.test t)

private theorem methodClauses_of_not_method {ts : List Token} (h : ¬Starts methodLetters ts) :
    methodClauses 0 ts = ([], ts) := by
  cases ts with
  | nil => rfl
  | cons t ts =>
    have none : method? t.kind = none := by
      rw [← Option.not_isSome_iff_eq_none, isSome_method?]
      exact mt starts_cons.mpr h
    simp only [methodClauses, none]

private theorem cuttable_methodClauses : Stage.Cuttable (methodClauses 0) := by
  intro ts
  by_cases h : Starts methodLetters ts
  · obtain ⟨t, ht, hk⟩ := h
    obtain ⟨ts, rfl⟩ := List.head?_eq_some_iff.mp ht
    obtain ⟨m, hm⟩ := Option.isSome_iff_exists.mp ((isSome_method? _).mpr hk)
    obtain ⟨c, used, rest, rfl, cut, ne, none⟩ := takesArgument_methodClause hm ts
    obtain ⟨cs, used', rest, rfl, reads⟩ := cuttable_methodClauses rest
    refine ⟨c :: cs, t :: used ++ used', rest, by simp, fun left hl ↦ ?_, fun t' ht' dice ↦ ?_⟩
    · have first := cut (used' ++ left) ((List.prefix_append_right_inj used').mpr hl)
      simp only [List.cons_append, List.append_assoc, methodClauses, hm, first,
        methodClauses_covered used.length, List.drop_left, reads.cut left hl]
    · cases used' with
      | nil =>
        cases used with
        | nil =>
          obtain rfl : t = t' := by simpa using ht'
          exact none dice rfl
        | cons a used =>
          refine absurd dice (ne t' ?_)
          have last : t' ∈ (a :: used).getLast? := by simpa [List.getLast?_cons] using ht'
          exact List.mem_of_getLast? last
      | cons a used' =>
        rw [List.getLast?_append_cons] at ht'
        exact reads.last t' ht' dice
  · exact ⟨[], [], ts, rfl, Stage.reads_nil fun left hl ↦
      methodClauses_of_not_method (not_starts_of_prefix_not h hl)⟩
termination_by ts => ts.length

private theorem clauses_eq_andThen : clauses =
    ((((Stage.andThen boostClause assignedClauses).andThen evaluatorClause).andThen
      (methodClauses 0)).andThen checkClause).andThen signClause := rfl

/-- Clauses are read from the first tokens and read the same whatever is cut off from the rest. -/
theorem cuttable_clauses : Stage.Cuttable clauses := by
  rw [clauses_eq_andThen]
  exact ((((cuttable_boostClause.andThen cuttable_assignedClauses).andThen
    cuttable_evaluatorClause).andThen cuttable_methodClauses).andThen
    cuttable_checkClause).andThen cuttable_signClause

/-- A specification is read from the first tokens, which hold at least its head, and is the same
whatever is cut off from the rest. Only where no integer follows does it end in a `d`. -/
theorem parseTokens_cut {stop : Nat} {ts rest : List Token} {spec : Spec}
    (h : parseTokens stop ts = .ok (spec, rest)) :
    ∃ used, ts = used ++ rest ∧ 3 ≤ used.length ∧
      (∀ stop' left, left <+: rest → parseTokens stop' (used ++ left) = .ok (spec, left)) ∧
      ∀ t ∈ used.getLast?, t.kind = .dice → ¬Starts [.integer] rest := by
  obtain ⟨count, dice, s, ts, n, faces, m, rfl, hc, hd, hs, hn, rest_eq, hm, rfl⟩ :=
    parseTokens_eq_ok.mp h
  obtain ⟨cs, used, rest, rfl, reads⟩ := cuttable_clauses ts
  rw [reads.eq] at rest_eq hm
  subst rest_eq
  refine ⟨count :: dice :: s :: used, rfl, by simp, fun stop' left hl ↦ ?_, fun t ht last ↦ ?_⟩
  · have left_eq := reads.cut left hl
    refine parseTokens_eq_ok.mpr ⟨count, dice, s, used ++ left, n, faces, m, rfl, hc, hd, hs, hn,
      ?_, ?_, rfl⟩
    · rw [left_eq]
    · rw [left_eq, resolve_eq_ok]
      exact resolve_eq_ok.mp hm
  · cases used with
    | nil =>
      obtain rfl : s = t := by simpa using ht
      rcases kind_of_sides hs with hk | hk <;> rw [hk] at last <;> contradiction
    | cons t' used => exact reads.last t (by simpa [List.getLast?_cons] using ht) last

end DicePool.Expression
