import DicePool.Proofs.Expression.Canonical
import DicePool.Proofs.Expression.Signed

/-!
# Negative thresholds as they are read

No number is read with a minus of its own. The minus of a threshold is read apart from it: after an
equals sign as part of an assigned sign, after any other comparison as the sign at the end. So the
text of a specification with negative thresholds is an expression only where nothing else follows.
-/

namespace DicePool

open Grammar Token

namespace Condition

/-- Whether a condition is read as an assigned sign: its threshold is negative and stands after an
equals sign. -/
def assigns (c : Condition) : Bool := c.threshold < 0 && c.comparison = .equal

/-- A condition assigns if its threshold is negative and it compares with an equals sign. -/
theorem assigns_iff {c : Condition} :
    c.assigns = true ↔ c.threshold < 0 ∧ c.comparison = .equal := by
  simp [assigns]

/-- The number that is read with the symbol of a condition; none where a minus follows it. -/
def amount? (c : Condition) : Option Token :=
  if c.threshold < 0 then none else some (numeral c.threshold.toNat)

/-- The sign that is read apart from the symbol of a condition. -/
def sign? (c : Condition) : Option Operation :=
  if c.threshold < 0 && !c.assigns then some ⟨word .minus, numeral c.threshold.natAbs⟩ else none

variable {c : Condition}

/-- A condition that assigns is an assigned sign. -/
private theorem signed_of_assigns (h : c.assigns = true) :
    c.signed = (assignment c.threshold).tokens := by
  obtain ⟨negative, equal⟩ := assigns_iff.mp h
  rw [signed, if_neg (Int.not_le.mpr negative), if_pos equal]

/-- Any other condition is a symbol and a number, or a symbol and a sign. -/
private theorem signed_of_not_assigns (h : c.assigns = false) :
    c.signed = word c.comparison.kind :: (c.amount?.toList ++ Grammar.optional c.sign?) := by
  unfold signed amount? sign?
  by_cases negative : c.threshold < 0
  · have other : c.comparison ≠ .equal := by
      intro equal
      simp [assigns, negative, equal] at h
    rw [if_neg (Int.not_le.mpr negative), if_neg other, if_pos negative]
    simp [negative, h, Grammar.optional, Operation.tokens]
  · rw [if_pos (Int.not_lt.mp negative), if_neg negative]
    simp [negative, Grammar.optional]

end Condition

namespace Modifier

/-- The sign that is read apart from a modifier. -/
def sign? (m : Modifier) : Option Operation := m.condition?.bind Condition.sign?

/-- The method that is read for a modifier, without its number where a minus precedes it. -/
def bare? (m : Modifier) : Option Item :=
  m.method?.map fun i ↦ { i with amount? := m.condition?.elim i.amount? Condition.amount? }

/-- The method that is read for a modifier is the one that is written, but for a negative number,
which is missing. -/
theorem bare?_cases {m : Modifier} {i : Item} (h : m.bare? = some i) :
    (m.method? = some i ∧ ∀ c ∈ m.condition?, 0 ≤ c.threshold) ∨
      ∃ k ∈ tests, ∃ c ∈ m.condition?, c.threshold < 0 ∧ m.method? = some (c.method k) ∧
        i = ⟨word k, some (word c.comparison.kind), none⟩ := by
  obtain ⟨j, hj, rfl⟩ := Option.map_eq_some_iff.mp h
  rcases method?_cases hj with ⟨k, hk, c, hc, rfl⟩ | ⟨k, _, s, hs, rfl⟩
  · by_cases negative : c.threshold < 0
    · right
      refine ⟨k, hk, c, hc, negative, hj, ?_⟩
      rw [hc, Option.elim_some, Condition.amount?, if_pos negative]
      rfl
    · left
      rw [hj, hc, Option.elim_some, Condition.amount?, if_neg negative]
      refine ⟨rfl, ?_⟩
      rintro _ ⟨⟩
      exact Int.not_lt.mp negative
  · have none : m.condition? = none := by rcases hs with rfl | rfl <;> rfl
    left
    rw [hj, none]
    exact ⟨rfl, by rintro _ ⟨⟩⟩

/-- A method that is read for a modifier keeps its operator, and its count if it has one. -/
theorem full_of_bare? {m : Modifier} {i : Item} (h : m.bare? = some i) :
    i.WellFormed ∧ (i.letters.kind ∈ pools → i.amount?.isSome = true) ∧
      (i.operator? = none → operators i.letters.kind = [] ∧ i.amount?.isSome = true) := by
  rcases bare?_cases h with ⟨hm, _⟩ | ⟨k, hk, c, _, _, _, rfl⟩
  · obtain ⟨wf, amount, operator⟩ := Spec.full_of_method? hm
    exact ⟨wf, fun _ ↦ amount, fun none ↦ ⟨operator none, amount⟩⟩
  · have kinds : k ∈ methodLetters ∧ operators k = comparisons ∧ k ∉ pools := by
      revert hk
      cases k <;> decide
    refine ⟨⟨kinds.1, ?_, by rintro _ ⟨⟩⟩, fun pool ↦ absurd pool kinds.2.2, by rintro ⟨⟩⟩
    rintro _ ⟨⟩
    rw [kind_word, kinds.2.1]
    exact c.comparison.kind_mem

/-- A sign that is read apart is a minus. -/
theorem of_sign? {m : Modifier} {o : Operation} (h : m.sign? = some o) : o.Of signs := by
  obtain ⟨c, _, hs⟩ := Option.bind_eq_some_iff.mp h
  have minus : TokenKind.minus ∈ signs := by decide
  unfold Condition.sign? at hs
  split at hs
  · obtain rfl := Option.some.inj hs
    exact ⟨minus, rfl⟩
  · contradiction

/-- The tokens that are read for a modifier, without the sign that is read apart. -/
def bare : Modifier → List Token
  | success c =>
    if c.assigns then (assignment c.threshold).tokens
    else word c.comparison.kind :: c.amount?.toList
  | boost b => (boost b).tokens
  | adjust a => (adjust a).tokens
  | m => m.bare?.toList.flatMap Item.tokens

/-- Only success conditions can be assigned signs; then a sign that is read apart is the last. -/
private theorem signed_eq {m : Modifier}
    (h : ∀ c ∈ m.condition?, c.assigns = true → m = success c) :
    m.signed = m.bare ++ Grammar.optional m.sign? := by
  have method (k : TokenKind) {c : Condition} (plain : c.assigns = false) :
      word k :: c.signed =
        Item.tokens ⟨word k, some (word c.comparison.kind), c.amount?⟩ ++ [] ++
          Grammar.optional c.sign? := by
    rw [Condition.signed_of_not_assigns plain]
    simp [Item.tokens, Item.argument]
  have plain {c : Condition} (hc : c ∈ m.condition?) (hm : m ≠ success c) : c.assigns = false := by
    rw [← Bool.not_eq_true]
    exact fun assigns ↦ hm (h c hc assigns)
  cases m with
  | boost | adjust | keep | drop => exact (List.append_nil _).symm
  | success c =>
    cases assigns : c.assigns with
    | true =>
      change c.signed = (if c.assigns then _ else _) ++ Grammar.optional c.sign?
      rw [Condition.signed_of_assigns assigns, assigns, if_pos rfl]
      simp [Condition.sign?, assigns, Grammar.optional]
    | false =>
      change c.signed = (if c.assigns then _ else _) ++ Grammar.optional c.sign?
      rw [Condition.signed_of_not_assigns assigns, assigns]
      rfl
  | explode e => exact method e.kind (plain rfl Modifier.noConfusion)
  | reroll r => exact method _ (plain rfl Modifier.noConfusion)
  | fail c | naturalSuccess c | naturalFail c | totalCheck c =>
    exact method _ (plain rfl Modifier.noConfusion)

end Modifier

namespace Spec

/-- The parts of the text of a specification as they are read. -/
def misreading (s : Spec) : Reading :=
  { s.reading with
    assigned := s.reading.assigned ++
      (s.modifiers.success?.filter Condition.assigns).toList.map fun c ↦ assignment c.threshold
    evaluator? := (s.modifiers.success?.filter fun c ↦ !c.assigns).map fun c ↦
      ⟨word c.comparison.kind, c.amount?⟩
    methods := s.modifiers.toList.filterMap Modifier.bare?
    sign? := s.modifiers.toList.getLast?.bind Modifier.sign? }

/-- Whether the text of a specification is an expression as far as its tokens go: a negative
threshold stands after an equals sign in the success condition, or nothing comes after it. -/
def Legible (s : Spec) : Prop :=
  ∀ before m after, s.modifiers.toList = before ++ m :: after →
    ∀ c ∈ m.condition?, c.threshold < 0 → if c.comparison = .equal then m = .success c
      else after = []

variable {s : Spec}

/-- Only the success condition assigns. -/
theorem Legible.eq_success (h : s.Legible) {m : Modifier} (hm : m ∈ s.modifiers.toList)
    {c : Condition} (hc : c ∈ m.condition?) (assigns : c.assigns = true) : m = .success c := by
  obtain ⟨before, after, same⟩ := List.append_of_mem hm
  obtain ⟨negative, equal⟩ := Condition.assigns_iff.mp assigns
  have legible := h before m after same c hc negative
  rwa [if_pos equal] at legible

/-- Only from the last modifier a sign is read apart. -/
theorem Legible.sign?_eq_none (h : s.Legible) {before after : List Modifier}
    (same : s.modifiers.toList = before ++ after) (ne : after ≠ []) {m : Modifier}
    (hm : m ∈ before) : m.sign? = none := by
  obtain ⟨front, between, rfl⟩ := List.append_of_mem hm
  cases hc : m.condition? with
  | none => rw [Modifier.sign?, hc, Option.bind_none]
  | some c =>
    rw [Modifier.sign?, hc, Option.bind_some, Condition.sign?, if_neg]
    intro apart
    simp only [Bool.and_eq_true, decide_eq_true_eq, Bool.not_eq_true', ← Bool.not_eq_true,
      Condition.assigns_iff, not_and] at apart
    have legible := h front m (between ++ after) (by simp [same]) c hc apart.1
    rw [if_neg (apart.2 apart.1)] at legible
    exact ne (List.append_eq_nil_iff.mp legible).2

/-- The tokens of all modifiers, with the sign read apart from the last of them. -/
private theorem flatMap_signed (h : s.Legible) : s.modifiers.toList.flatMap Modifier.signed =
    s.modifiers.toList.flatMap Modifier.bare ++ Grammar.optional s.misreading.sign? := by
  have whole : s.modifiers.toList.flatMap Modifier.signed =
      s.modifiers.toList.flatMap fun m ↦ m.bare ++ Grammar.optional m.sign? :=
    List.flatMap_congr fun m hm ↦ Modifier.signed_eq fun c hc ↦ h.eq_success hm hc
  rw [whole, misreading]
  obtain nil | ⟨init, l, same⟩ := List.eq_nil_or_concat s.modifiers.toList
  · rw [nil]
    rfl
  · rw [List.concat_eq_append] at same
    have front : (init.flatMap fun m ↦ m.bare ++ Grammar.optional m.sign?) =
        init.flatMap Modifier.bare := by
      apply List.flatMap_congr
      intro m hm
      rw [h.sign?_eq_none same (List.cons_ne_nil l []) hm]
      exact List.append_nil _
    rw [same, List.flatMap_append, front]
    simp

/-- The tokens after the sides of the reading. -/
private theorem afterSides_misreading (s : Spec) : s.misreading.afterSides =
    s.modifiers.toList.flatMap Modifier.bare ++ Grammar.optional s.misreading.sign? := by
  have boost : (s.modifiers.boost?.map Modifier.boost).toList.flatMap Modifier.bare =
      (s.modifiers.boost?.map Modifier.boost).toList.flatMap Modifier.tokens := by
    cases s.modifiers.boost? <;> rfl
  have adjust : (s.modifiers.adjust?.map Modifier.adjust).toList.flatMap Modifier.bare =
      (s.modifiers.adjust?.map Modifier.adjust).toList.flatMap Modifier.tokens := by
    cases s.modifiers.adjust? <;> rfl
  have success : (s.modifiers.success?.map Modifier.success).toList.flatMap Modifier.bare =
      ((s.modifiers.success?.filter Condition.assigns).toList.map fun c ↦
        assignment c.threshold).flatMap Operation.tokens ++
        s.misreading.evaluator?.toList.flatMap Evaluator.tokens := by
    rw [misreading]
    cases s.modifiers.success? with
    | none => rfl
    | some c =>
      cases assigns : c.assigns <;>
        simp [Modifier.bare, Option.filter, assigns, Evaluator.tokens]
  have methods := s.modifiers.flatMap_filterMap_toList (f := Modifier.bare?) (g := Modifier.bare)
    (fun x hx ↦ by rw [Modifier.bare?, hx, Option.map_none])
    fun x hx ↦ by cases x <;> first | rfl | contradiction
  rw [s.modifiers.toList_eq, List.flatMap_append, List.flatMap_append, List.flatMap_append, boost,
    adjust, success, ← s.modifiers.optional_boost, ← s.modifiers.flatMap_assignment, ← methods]
  have none : Grammar.optional Option.none = [] := rfl
  simp only [misreading, reading, Reading.afterSides, Reading.afterBoost, Reading.afterAssigned,
    Reading.afterEvaluator, Reading.afterMethods, Reading.afterCheck, none, List.nil_append,
    List.flatMap_append, List.append_assoc]

/-- The reading has the tokens of the text. -/
theorem tokens_misreading (h : s.Legible) : s.misreading.tokens = s.signed := by
  rw [signed, flatMap_signed h, ← afterSides_misreading]
  rfl

/-- Nothing that is written as a boost or an adjustment comes after a condition. -/
private theorem signed_ne_nil_of_after {before after : List Modifier} {m : Modifier}
    (same : s.modifiers.toList = before ++ m :: after) {c : Condition} (hc : c ∈ m.condition?)
    {m' : Modifier} (hm' : m' ∈ after) : m'.signed ≠ [] := by
  have pair : [m.kind, m'.kind].Sublist ModifierKind.all := by
    have kinds := s.modifiers.sublist_kinds
    rw [same, List.map_append, List.map_cons] at kinds
    have later : [m'.kind].Sublist (after.map Modifier.kind) :=
      List.singleton_sublist.mpr (List.mem_map_of_mem hm')
    exact ((later.cons_cons m.kind).trans (List.sublist_append_right _ _)).trans kinds
  have condition (c : Condition) : c.signed ≠ [] := by
    unfold Condition.signed
    split <;> [skip; split] <;> exact List.cons_ne_nil _ _
  have first : m.kind ≠ .boost ∧ m.kind ≠ .adjust := by
    cases m <;> first | contradiction | simp [Modifier.kind]
  cases m' with
  | boost b =>
    have order : ∀ k, [k, .boost].Sublist ModifierKind.all → False := by
      intro k
      cases k <;> decide
    exact absurd pair (order _)
  | adjust a =>
    have order : ∀ k, [k, .adjust].Sublist ModifierKind.all → k = .boost := by
      intro k
      cases k <;> decide
    exact absurd (order _ pair) first.1
  | keep | drop => exact List.cons_ne_nil _ _
  | success c | fail c | naturalSuccess c | naturalFail c | totalCheck c =>
    exact List.append_ne_nil_of_right_ne_nil _ (condition c)
  | explode e => exact List.append_ne_nil_of_right_ne_nil _ (condition e.condition)
  | reroll r => exact List.append_ne_nil_of_right_ne_nil _ (condition r.condition)

/-- A modifier that compares begins with the letters of a test unless it is a success condition. -/
private theorem exists_letters {m : Modifier} {c : Condition} (hc : c ∈ m.condition?)
    (hm : m ≠ .success c) : ∃ k ∈ tests, m.letters = [word k] := by
  cases hi : m.method? with
  | none =>
    cases m with
    | success c' => exact absurd (congrArg Modifier.success (Option.some.inj hc)) hm
    | _ => contradiction
  | some i =>
    rcases Modifier.method?_cases hi with ⟨k, hk, _, _, rfl⟩ | ⟨_, _, _, rfl | rfl, _⟩
    · refine ⟨k, hk, ?_⟩
      rw [Modifier.letters, hi]
      rfl
    · contradiction
    · contradiction

/-- The text is no expression unless it is legible. -/
theorem legible_of_sentence (h : Sentence s.signed) : s.Legible := by
  obtain ⟨r, wf, tokens⟩ := h
  intro before m after same c hc negative
  have compared : c.comparison.kind ∈ comparisons ++ tests :=
    List.mem_append_left tests c.comparison.kind_mem
  have split : r.tokens = [numeral s.count, word .dice, s.faces.sides] ++
      before.flatMap Modifier.signed ++ (m.letters ++ c.signed) ++
        after.flatMap Modifier.signed := by
    rw [tokens, signed, same, List.flatMap_append, List.flatMap_cons, Modifier.signed, hc]
    simp only [Option.elim_some, List.append_assoc]
  rw [Condition.signed, if_neg (Int.not_le.mpr negative)] at split
  by_cases equal : c.comparison = .equal
  · rw [if_pos equal] at split ⊢
    by_contra hm
    obtain ⟨k, hk, letters⟩ := exists_letters hc hm
    have parts : r.tokens = [numeral s.count, word .dice, s.faces.sides] ++
        before.flatMap Modifier.signed ++ [word k, word .equalMinus] ++
          (numeral c.threshold.natAbs :: after.flatMap Modifier.signed) := by
      rw [split, letters, assignment, if_pos negative]
      simp [Operation.tokens]
    have minus := Reading.eq_minus_of_tokens wf parts (List.mem_append_right _ hk) (by decide)
    exact absurd minus.1 (by decide)
  · rw [if_neg equal] at split ⊢
    have parts : r.tokens = ([numeral s.count, word .dice, s.faces.sides] ++
        before.flatMap Modifier.signed ++ m.letters) ++ [word c.comparison.kind, word .minus] ++
          (numeral c.threshold.natAbs :: after.flatMap Modifier.signed) := by
      rw [split]
      simp
    have last := (Reading.eq_minus_of_tokens wf parts compared (by decide)).2
    rw [List.length_cons, Nat.add_eq_right, List.length_eq_zero_iff] at last
    rw [List.eq_nil_iff_forall_not_mem]
    intro m' hm'
    exact signed_ne_nil_of_after same hc hm' (List.flatMap_eq_nil_iff.mp last m' hm')

private theorem exists_of_mem_methods {i : Item} (h : i ∈ s.misreading.methods) : ∃ m : Modifier,
    m.bare? = some i := by
  obtain ⟨m, _, hm⟩ := List.mem_filterMap.mp h
  exact ⟨m, hm⟩

/-- The reading follows the grammar. -/
theorem wellFormed_misreading (s : Spec) : s.misreading.WellFormed where
  count := rfl
  dice := rfl
  sides := s.faces.kind_sides
  boost := s.wellFormed_reading.boost
  assigned := by
    intro o ho
    rcases List.mem_append.mp ho with ho | ho
    · exact s.wellFormed_reading.assigned o ho
    · obtain ⟨c, _, rfl⟩ := List.mem_map.mp ho
      exact of_assignment c.threshold
  evaluator := by
    intro e he
    obtain ⟨c, _, rfl⟩ := Option.map_eq_some_iff.mp he
    refine ⟨c.comparison.kind_mem, ?_⟩
    change ∀ n ∈ c.amount?, n.kind = .integer
    unfold Condition.amount?
    split <;> simp
  methods := eachBefore_of_forall fun i hi after ↦ by
    obtain ⟨m, hm⟩ := exists_of_mem_methods hi
    obtain ⟨wf, amount, _⟩ := Modifier.full_of_bare? hm
    refine ⟨wf, fun pool none ↦ ?_⟩
    have some := amount pool
    rw [none] at some
    contradiction
  check := by rintro _ ⟨⟩
  sign := by
    intro o ho
    obtain ⟨m, _, hm⟩ := Option.bind_eq_some_iff.mp ho
    exact Modifier.of_sign? hm

/-- A sign comes after an evaluator or a method. -/
private theorem methods_ne_nil_of_sign? (evaluator : s.misreading.evaluator? = none)
    {o : Operation} (h : s.misreading.sign? = some o) : s.misreading.methods ≠ [] := by
  obtain ⟨m, last, sign⟩ := Option.bind_eq_some_iff.mp h
  obtain ⟨c, hc, apart⟩ := Option.bind_eq_some_iff.mp sign
  have mem := List.mem_of_getLast? last
  cases hi : m.method? with
  | some i =>
    have item : m.bare? = some _ := congrArg (Option.map _) hi
    exact List.ne_nil_of_mem (List.mem_filterMap.mpr ⟨m, mem, item⟩)
  | none =>
    cases m with
    | success c' =>
      obtain rfl := Option.some.inj hc
      have written : s.modifiers.success? = some c' := by
        simpa [Modifiers.get?, Modifier.kind] using Modifiers.mem_toList_iff.mp mem
      have assigns : c'.assigns = true := by
        simpa [misreading, written, Option.filter] using evaluator
      simp [Condition.sign?, assigns] at apart
    | _ => contradiction

/-- The reading leaves nothing out that could be read. -/
theorem greedy_misreading (s : Spec) : s.misreading.Greedy := by
  have wf := s.wellFormed_misreading
  have check : s.misreading.check? = none := rfl
  have afterMethods : s.misreading.afterMethods = Grammar.optional s.misreading.sign? := rfl
  refine wf.greedy (fun _ starts ↦ ?_) (fun _ starts ↦ ?_) ?_
  · -- a boost would have to be the sign, but there is something between
    have starts := starts.starts
    obtain ⟨assigned, evaluator, methods, _⟩ := wf.eq_nil_of_starts_arithmetic starts
    rw [Reading.afterBoost, Reading.afterAssigned, Reading.afterEvaluator, assigned, evaluator,
      methods, afterMethods] at starts
    cases hs : s.misreading.sign? with
    | none =>
      rw [hs] at starts
      exact not_starts_nil starts
    | some o => exact methods_ne_nil_of_sign? evaluator hs methods
  · have methods := wf.methods_eq_nil (by decide) starts
    rw [Reading.afterEvaluator, methods] at starts
    exact wf.not_starts_afterCheck (by decide) starts
  · have integer : ¬Starts [.integer] s.misreading.afterMethods :=
      wf.not_starts_afterMethods (by decide)
    obtain greedy | ⟨init, l, same, _, _⟩ := greedy_or_bare wf.methods integer
    · exact greedy
    · obtain ⟨m, hm⟩ := exists_of_mem_methods (s := s) (i := ⟨l, none, none⟩) (by rw [same]; simp)
      have amount := ((Modifier.full_of_bare? hm).2.2 rfl).2
      contradiction

end Spec

end DicePool
