import DicePool.Proofs.Expression.Rewrite
import DicePool.Proofs.Roll.Draws
import DicePool.Proofs.Roll.Expression
import DicePool.Proofs.Text.Numeral

/-!
# Reading an expression again

The totals of nested terms are natural numbers, so that their texts are numerals. However they come
out, the expression shows the same faces and has modifiers of the same kinds.
-/

namespace DicePool

open Expression Token

/-- A nested term is read as dice and nothing else. -/
theorem Spec.bare_of_nested {cs : List Char} {t : NestedTerm} (ht : t ∈ nestedTerms cs)
    {spec : Spec} (h : Expression.parse t.text = .ok spec) :
    spec.Bare t.count.number t.sides.number := by
  have placed := placed_of_mem_nestedTerms ht
  obtain ⟨after, pieces⟩ := placed.pieces
  have read : parseTokens 0 [t.count, t.dice, t.sides] = .ok (spec, []) :=
    (parse_joined 0 pieces).mp h
  obtain ⟨_, _, s, rest, n, faces, m, same, _, _, hf, hn, _, hm, rfl⟩ :=
    Grammar.parseTokens_eq_ok.mp read
  obtain ⟨rfl, rfl, rfl, rfl⟩ : _ ∧ _ ∧ t.sides = s ∧ [] = rest := by simpa using same
  obtain ⟨_, _, rfl⟩ := Grammar.resolve_eq_ok.mp hm
  obtain ⟨⟨_, dice⟩, rfl⟩ := Grammar.diceCount_eq_ok.mp hn
  obtain ⟨valid, rfl⟩ : ∃ valid, faces = .range t.sides.number valid := by
    rw [Expression.sides, if_pos placed.kinds.2.2] at hf
    split at hf
    · contradiction
    · by_cases valid : 0 < t.sides.number ∧ t.sides.number < 4294967296
      · rw [FaceSet.ofSides?, dif_pos valid] at hf
        exact ⟨valid, (Except.ok.inj hf).symm⟩
      · rw [FaceSet.ofSides?, dif_neg valid] at hf
        contradiction
  exact ⟨rfl, ⟨valid, rfl⟩, dice, ⟨rfl, rfl⟩, rfl, rfl, rfl⟩

namespace Rolling

variable {σ : Type} [Roller σ]

/-- Whether a substitution records a nested term with the sum of its answers as its total, where all
answers satisfy `D` for the number of sides. -/
structure Records (D : Nat → Nat → Prop) (t : NestedTerm) (s : Substitution) : Prop where
  span : s.span = t.span
  text : s.text = t.text
  operator : s.operator = String.ofList t.operator.text
  read : ∃ spec, Expression.parse t.text = .ok spec
  total : ∃ ns : List Nat, ns.length = t.count.number ∧ (∀ n ∈ ns, D t.sides.number n) ∧
    s.total = (ns.sum : Nat)

/-- Whether substitutions record nested terms in order. -/
abbrev Recorded (D : Nat → Nat → Prop) : List NestedTerm → List Substitution → Prop :=
  List.Forall₂ (Records D)

/-- The edits that write the totals of substitutions in their places. -/
def subEdits (subs : List Substitution) : List (Span × List Char) :=
  subs.map fun s ↦ (s.span, (Value.text s.total).toList)

section Accounted

variable {I : Nat → σ → Prop} {D : Nat → Nat → Prop}

/-- A nested term is recorded with one draw for each die. -/
theorem spends_substitute (h : Accounts I D) {cs : List Char} {t : NestedTerm}
    (ht : t ∈ nestedTerms cs) :
    Spends I (substitute t : Rolling σ Substitution) t.count.number (Records D t) := by
  refine Spends.ofParse.free_bind fun spec read ↦ ?_
  exact (spends_total h (Spec.bare_of_nested ht read)).bind_free fun v total ↦
    .pure ⟨rfl, rfl, rfl, ⟨spec, read⟩, total⟩

/-- Every nested term of a text is recorded, and its total is written in its place. -/
theorem spends_resolveNested (h : Accounts I D) (text : String) :
    Spends I (resolveNested text : Rolling σ _)
      ((nestedTerms text.toList).map fun t ↦ t.count.number).sum fun r ↦
        Recorded D (nestedTerms text.toList) r.2 ∧
          r.1 = String.ofList (Text.splice text.toList (subEdits r.2)) :=
  (Spends.mapM fun _ ht ↦ spends_substitute h ht).bind_free fun _ recorded ↦ .pure ⟨recorded, rfl⟩

/-- Without an account nothing is known of the answers. -/
theorem ensures_resolveNested (text : String) :
    Ensures (resolveNested text : Rolling σ _) fun r ↦
      Recorded (fun _ _ ↦ True) (nestedTerms text.toList) r.2 ∧
        r.1 = String.ofList (Text.splice text.toList (subEdits r.2)) :=
  .of_spends (spends_resolveNested (fun _ _ _ _ _ ↦ ⟨True.intro, True.intro⟩) text)

end Accounted

section

variable {D : Nat → Nat → Prop} {terms : List NestedTerm} {subs : List Substitution}

/-- Every substitution records a term. -/
theorem exists_of_recorded (h : Recorded D terms subs) :
    ∀ s ∈ subs, ∃ t ∈ terms, Records D t s := by
  induction h with
  | nil => simp
  | @cons t s _ _ first _ ih =>
    refine List.forall_mem_cons.mpr ⟨⟨t, List.mem_cons_self, first⟩, fun s hs ↦ ?_⟩
    obtain ⟨t', ht, record⟩ := ih s hs
    exact ⟨t', List.mem_cons_of_mem _ ht, record⟩

/-- Terms that are recorded have been read. -/
theorem read_of_recorded (h : Recorded D terms subs) :
    ∀ t ∈ terms, ∃ spec, Expression.parse t.text = .ok spec := by
  induction h with
  | nil => simp
  | cons first _ ih => exact List.forall_mem_cons.mpr ⟨first.read, ih⟩

/-- The text of a natural number is its numeral. -/
theorem toList_text_natCast (n : Nat) : (Value.text (n : Value)).toList = Numeral.digits n := by
  have text : Value.text (n : Value) = Numeral.ofInt n := Value.text_intCast n
  rw [text, Numeral.toList_ofInt]
  simp

/-- The totals of recorded terms are written as numerals in their places. -/
theorem exists_numerals (h : Recorded D terms subs) :
    ∃ news : List (List Char), news.length = terms.length ∧
      (∀ w ∈ news, w ≠ [] ∧ ∀ c ∈ w, c.isDigit = true) ∧
        subEdits subs = nestedEdits terms news := by
  induction h with
  | nil => exact ⟨[], rfl, by simp, rfl⟩
  | @cons t s _ _ first _ ih =>
    obtain ⟨news, length, digits, same⟩ := ih
    obtain ⟨ns, _, _, total⟩ := first.total
    have text : (Value.text s.total).toList = Numeral.digits ns.sum := by
      rw [total, toList_text_natCast]
    refine ⟨Numeral.digits ns.sum :: news, by simp [length], List.forall_mem_cons.mpr ⟨?_, digits⟩,
      congrArg₂ List.cons (Prod.ext first.span text) same⟩
    exact ⟨Numeral.digits_ne_nil _, fun _ hc ↦ Numeral.isDigit_of_mem_digits hc⟩

end

/-- An expression is read with the totals of its nested terms in their places. -/
theorem ensures_parse_recorded (text : String) :
    Ensures (parse text : Rolling σ Spec) fun spec ↦
      Recorded (fun _ _ ↦ True) (nestedTerms text.toList) spec.substitutions ∧
        Expression.parse (String.ofList (Text.splice text.toList (subEdits spec.substitutions))) =
          .ok { spec with substitutions := [] } := by
  refine (ensures_resolveNested text).bind fun r ⟨recorded, rewritten⟩ ↦ ?_
  refine Ensures.ofParse.bind fun spec read ↦ .pure ⟨recorded, ?_⟩
  rw [← rewritten, read, ← substitutions_of_parse read]

/-- Whether an expression is read as a specification with some numbers in the places of its nested
terms, which are listed. -/
def Resolved (text : String) (spec : Spec) : Prop :=
  spec.substitutions.length = (nestedTerms text.toList).length ∧
    ∃ news : List (List Char), news.length = (nestedTerms text.toList).length ∧
      (∀ w ∈ news, w ≠ [] ∧ ∀ c ∈ w, c.isDigit = true) ∧
      Expression.parse (String.ofList
        (Text.splice text.toList (nestedEdits (nestedTerms text.toList) news))) =
          .ok { spec with substitutions := [] }

/-- An expression is read with numbers in the places of its nested terms. -/
theorem ensures_parse (text : String) :
    Ensures (parse text : Rolling σ Spec) (Resolved text) := by
  refine (ensures_parse_recorded text).imp fun spec ⟨recorded, read⟩ ↦ ?_
  obtain ⟨news, length, digits, same⟩ := exists_numerals recorded
  exact ⟨recorded.length_eq.symm, news, length, digits, same ▸ read⟩

/-- However the nested terms come out, an expression shows the same faces and has modifiers of the
same kinds. -/
theorem Resolved.alike {text : String} {spec spec' : Spec} (h : Resolved text spec)
    (h' : Resolved text spec') :
    spec.faces = spec'.faces ∧ ∀ k, spec.modifiers.contains k = spec'.modifiers.contains k := by
  obtain ⟨_, news, hl, hw, read⟩ := h
  obtain ⟨_, news', hl', hw', read'⟩ := h'
  have shape := shape_of_parse_splice hl hl' hw hw' read read'
  exact shape

end Rolling

end DicePool
