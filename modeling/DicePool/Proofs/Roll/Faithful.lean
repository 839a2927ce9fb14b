import DicePool.Proofs.Roll.Nested
import DicePool.Roller.Source

/-!
# Rolling nested dice faithfully

What is written for a nested term is what its dice came to, and nothing else of the text changes.
All nested terms are gone afterwards. A text without nested terms is read literally as it is read
by rolling; a text with some is refused literally at the first of them.
-/

namespace DicePool

namespace Roller

variable {σ : Type} [Roller σ]

/-- The state of a roller that has answered for numbers of sides, one after the other. -/
def after (s : σ) (asked : List Nat) : σ := asked.foldl (fun s sides ↦ (roll s sides).2) s

/-- Whether a roller answers within the sides from a state on, whatever it has been asked. -/
def Fair (s : σ) : Prop :=
  ∀ asked : List Nat, (∀ sides ∈ asked, 0 < sides) → ∀ sides, 0 < sides →
    1 ≤ (roll (after s asked) sides).1 ∧ (roll (after s asked) sides).1 ≤ sides

/-- A fair roller is fair after each answer. -/
theorem Fair.next {s : σ} (h : Fair s) {sides : Nat} (pos : 0 < sides) : Fair (roll s sides).2 :=
  fun asked all ↦ h (sides :: asked) (List.forall_mem_cons.mpr ⟨pos, all⟩)

/-- A counter is fair. -/
theorem fair_step (current increment : Nat) : Fair (Source.step current increment) := by
  intro asked
  induction asked generalizing current with
  | nil => exact fun _ sides pos ↦ Source.step_mem pos current increment
  | cons n asked ih => exact fun all ↦ ih (current + increment) (List.forall_mem_cons.mp all).2

end Roller

namespace Rolling

open Expression Roller

variable {σ : Type} [Roller σ]

/-- The draws of a fair roller are counted one by one, and its answers are within the sides. -/
private theorem accounts_fair (start : Nat) :
    Accounts (fun k (s : Counted σ) ↦ Fair s.source ∧ s.draws = start + k)
      fun sides n ↦ 1 ≤ n ∧ n ≤ sides := by
  intro k s ⟨fair, draws⟩ sides pos
  have within : 1 ≤ (Roller.roll s sides).1 ∧ (Roller.roll s sides).1 ≤ sides :=
    fair [] (by simp) sides pos
  refine ⟨⟨Nat.le_min.mpr ⟨within.1, by decide⟩, (Nat.min_le_left _ _).trans within.2⟩,
    fair.next pos, ?_⟩
  show s.draws + 1 = start + (k + 1)
  omega

/-- The number of dice of a dice term as it is written. -/
def countOf (text : String) : Nat := Numeral.value (text.toList.takeWhile Char.isDigit)

/-- The number of sides of a dice term as it is written. -/
def sidesOf (text : String) : Nat := Numeral.value (text.toList.dropWhile Char.isDigit).tail

/-- Whether a substitution is true to a text: it records a dice term at its place, the operator
right before it, and a total that its dice can come to. -/
structure Faithful (cs : List Char) (s : Substitution) : Prop where
  nonempty : s.span.start < s.span.stop
  slice : s.text.toList = Text.slice cs s.span
  operator : ∃ o ∈ Token.scan cs, opensNested o.kind = true ∧ o.span.stop = s.span.start ∧
    s.operator = String.ofList o.text
  dice : ∃ count sides : List Char, s.text.toList = count ++ 'd' :: sides ∧
    (count ≠ [] ∧ ∀ c ∈ count, c.isDigit = true) ∧ (sides ≠ [] ∧ ∀ c ∈ sides, c.isDigit = true)
  total : ∃ n : Nat, s.total = n ∧ countOf s.text ≤ n ∧ n ≤ countOf s.text * sidesOf s.text

/-- The numbers of a nested term are those that are written. -/
private theorem numbers_of_placed {cs : List Char} {t : NestedTerm} (h : t.Placed cs) :
    countOf t.text = t.count.number ∧ sidesOf t.text = t.sides.number := by
  obtain ⟨text, ⟨_, digits⟩, _⟩ := h.text_eq
  have stop : ¬Char.isDigit 'd' = true := by decide
  constructor
  · rw [countOf, text, List.takeWhile_append_of_pos digits, List.takeWhile_cons_of_neg stop,
      List.append_nil, Token.number]
  · rw [sidesOf, text, List.dropWhile_append_of_pos digits, List.dropWhile_cons_of_neg stop,
      List.tail_cons, Token.number]

/-- Dice from one to their sides total from their number to all sides together. -/
private theorem sum_within {sides : Nat} {ns : List Nat} (h : ∀ n ∈ ns, 1 ≤ n ∧ n ≤ sides) :
    ns.length ≤ ns.sum ∧ ns.sum ≤ ns.length * sides := by
  induction ns with
  | nil => simp
  | cons n ns ih =>
    rw [List.forall_mem_cons] at h
    obtain ⟨least, most⟩ := ih h.2
    rw [List.length_cons, List.sum_cons, Nat.succ_mul]
    omega

/-- What is recorded of a fair roller is true to the text. -/
private theorem faithful_of_records {cs : List Char} {t : NestedTerm} {s : Substitution}
    (ht : t ∈ nestedTerms cs) (h : Records (fun sides n ↦ 1 ≤ n ∧ n ≤ sides) t s) :
    Faithful cs s := by
  have placed := placed_of_mem_nestedTerms ht
  obtain ⟨count, sides⟩ := numbers_of_placed placed
  obtain ⟨ns, length, within, total⟩ := h.total
  obtain ⟨least, most⟩ := sum_within within
  refine ⟨?_, ?_, ⟨t.operator, placed.operator, placed.opens, ?_, h.operator⟩, ?_,
    ⟨ns.sum, total, ?_⟩⟩
  · rw [h.span]
    exact placed.nonempty
  · rw [h.span, h.text]
    exact placed.slice
  · rw [h.span]
    exact placed.touches
  · rw [h.text]
    exact ⟨_, _, placed.text_eq⟩
  · rw [h.text, count, sides, ← length]
    exact ⟨least, most⟩

private theorem sum_counts {D : Nat → Nat → Prop} {cs : List Char} {terms : List NestedTerm}
    {subs : List Substitution} (h : Recorded D terms subs) (placed : ∀ t ∈ terms, t.Placed cs) :
    (terms.map fun t ↦ t.count.number).sum = (subs.map fun s ↦ countOf s.text).sum := by
  induction h with
  | nil => rfl
  | cons first _ ih =>
    rw [List.forall_mem_cons] at placed
    simp only [List.map_cons, List.sum_cons]
    rw [ih placed.2, first.text, (numbers_of_placed placed.1).1]

/-- Rolling the nested terms of a text with a fair roller records each of them as it is written, one
after the other, and draws once for each of their dice. Their totals are written in their places and
the rest of the text stays; then there are no nested terms any more, and rolling again changes
nothing. -/
theorem resolveNested_faithful {text rewritten : String} {subs : List Substitution}
    {c c' : Context (Counted σ)} (fair : Fair c.source.source)
    (h : (resolveNested text).run c = (.ok (rewritten, subs), c')) :
    (∀ s ∈ subs, Faithful text.toList s) ∧
    (subs.Pairwise fun s s' ↦ s.span.stop ≤ s'.span.start) ∧
    c'.source.draws = c.source.draws + (subs.map fun s ↦ countOf s.text).sum ∧
    Text.Replaced 0 text.toList (subEdits subs) rewritten.toList ∧
    firstNested? rewritten.toList = none ∧
    ∀ (τ : Type) [Roller τ] (c : Context τ),
      (resolveNested rewritten).run c = (.ok (rewritten, []), c) := by
  obtain ⟨⟨recorded, written⟩, _, draws⟩ :=
    spends_resolveNested (accounts_fair c.source.draws) text 0 c (rewritten, subs) c' ⟨fair, rfl⟩ h
  simp only at recorded written
  obtain ⟨news, length, digits, edits⟩ := exists_numerals recorded
  have replaced : Text.Replaced 0 text.toList (subEdits subs) rewritten.toList := by
    rw [written, String.toList_ofList, edits]
    exact replaced_splice length digits
  have none : nestedTerms rewritten.toList = [] := by
    rw [written, String.toList_ofList, edits]
    exact nestedTerms_splice length digits
  refine ⟨fun s hs ↦ ?_, ?_, ?_, replaced, ?_, fun τ _ c ↦ run_resolveNested_of_nil none c⟩
  · obtain ⟨t, ht, record⟩ := exists_of_recorded recorded s hs
    exact faithful_of_records ht record
  · have apart := replaced.pairwise.2
    rwa [subEdits, List.pairwise_map] at apart
  · rw [draws, Nat.zero_add, sum_counts recorded fun t ht ↦ placed_of_mem_nestedTerms ht]
  · rw [firstNested?_eq_head?, none, List.head?_nil]

/-- Two nested terms, rolled by a counter from two on, come to five and four. -/
theorem resolveNested_faithful_bonusAndCheck :
    ∃ (subs : List Substitution) (c' : Context (Counted Source)),
      (resolveNested "1d20+2d4>=1d6").run (Context.new {} (Counted.mk (Source.step 2 1) 0)) =
        (.ok ("1d20+5>=4", subs), c') ∧
      Fair (Source.step 2 1) ∧ subs.map Substitution.total = [5, 4] ∧ c'.source.draws = 3 ∧
      (∀ s ∈ subs, Faithful "1d20+2d4>=1d6".toList s) ∧ firstNested? "1d20+5>=4".toList = none := by
  obtain ⟨⟨rewritten, subs⟩, c', run, falls⟩ :=
    exists_result
      (r := (resolveNested "1d20+2d4>=1d6").run (Context.new {} (Counted.mk (Source.step 2 1) 0)))
      (f := fun r ↦ (r.1, r.2.map Substitution.text, r.2.map Substitution.total))
      (b := ("1d20+5>=4", ["2d4", "1d6"], [5, 4])) (by decide +kernel)
  simp only [Prod.mk.injEq] at falls
  obtain ⟨rfl, texts, totals⟩ := falls
  have fair : Fair (Source.step 2 1) := fair_step 2 1
  obtain ⟨faithful, _, draws, _, none, _⟩ := resolveNested_faithful fair run
  refine ⟨subs, c', run, fair, totals, ?_, faithful, none⟩
  have counts : (subs.map fun s ↦ countOf s.text) = ["2d4", "1d6"].map countOf := by
    rw [← texts, List.map_map]
    rfl
  rw [draws, counts]
  decide

private theorem head?_of_firstNested? {cs : List Char} {t : NestedTerm}
    (h : firstNested? cs = some t) : ∃ rest, nestedTerms cs = t :: rest := by
  rw [firstNested?_eq_head?] at h
  exact List.head?_eq_some_iff.mp h

/-- A text in which no token begins a nested term is read the same literally and by rolling, and
nothing is drawn. A text in which some do is refused literally at the first of them; by rolling, it
is read as the text with the totals in the places of its terms, of which the first is this one. -/
theorem parse_agrees_parseLiteral (text : String) :
    (firstNested? text.toList = none →
      parseLiteral text = Expression.parse text ∧
      (∀ spec, Expression.parse text = .ok spec → spec.substitutions = []) ∧
      ∀ (τ : Type) [Roller τ] (c : Context τ), (parse text).run c =
        match Expression.parse text with
        | .ok spec => (.ok spec, c)
        | .error e => (.error (.parse e), c)) ∧
    ∀ t, firstNested? text.toList = some t →
      t.text.toList = Text.slice text.toList t.span ∧
      parseLiteral text = .error ⟨.nestedDice, t.span, t.text⟩ ∧
      ∀ (τ : Type) [Roller τ] (c c' : Context τ) (spec : Spec),
        (parse text).run c = (.ok spec, c') →
        spec.substitutions.head?.map Substitution.span = some t.span ∧
        ∃ rewritten : String,
          Text.Replaced 0 text.toList (subEdits spec.substitutions) rewritten.toList ∧
          Expression.parse rewritten = .ok { spec with substitutions := [] } := by
  refine ⟨fun plain ↦ ?_, fun t first ↦ ?_⟩
  · have none : nestedTerms text.toList = [] := by
      rwa [firstNested?_eq_head?, List.head?_eq_none_iff] at plain
    refine ⟨by rw [parseLiteral_eq, plain], fun spec ↦ substitutions_of_parse, fun τ _ c ↦ ?_⟩
    exact run_parse_of_nil none c
  · obtain ⟨rest, nested⟩ := head?_of_firstNested? first
    have placed : t.Placed text.toList := placed_of_mem_nestedTerms (by simp [nested])
    refine ⟨placed.slice, by rw [parseLiteral_eq, first], fun τ _ c c' spec run ↦ ?_⟩
    obtain ⟨recorded, read⟩ := ensures_parse_recorded text c spec c' run
    obtain ⟨news, length, digits, edits⟩ := exists_numerals recorded
    refine ⟨?_, _, ?_, read⟩
    · rw [nested] at recorded
      obtain ⟨s, subs, record, _, all⟩ := List.forall₂_cons_left_iff.mp recorded
      rw [all, List.head?_cons, Option.map_some, record.span]
    · rw [String.toList_ofList, edits]
      exact replaced_splice length digits

/-- A check against nested dice is refused literally at the dice, and by rolling it is read with
their total. Dice of which some are kept are read literally. -/
theorem parse_agrees_parseLiteral_nestedCheck :
    ∃ (t : NestedTerm) (spec : Spec) (c' : Context Source),
      firstNested? "1d20>=2d6".toList = some t ∧ t.span = ⟨6, 9⟩ ∧
      parseLiteral "1d20>=2d6" = .error ⟨.nestedDice, t.span, t.text⟩ ∧
      (parse "1d20>=2d6").run (Context.new {} (Source.step 2 1)) = (.ok spec, c') ∧
      spec.substitutions.head?.map Substitution.span = some t.span ∧
      firstNested? "4d6kh3".toList = none ∧ parseLiteral "4d6kh3" = Expression.parse "4d6kh3" := by
  obtain ⟨t, first, span⟩ : ∃ t, firstNested? "1d20>=2d6".toList = some t ∧ t.span = ⟨6, 9⟩ :=
    ⟨_, rfl, rfl⟩
  obtain ⟨spec, c', run, _⟩ :=
    exists_result (r := (parse "1d20>=2d6").run (Context.new {} (Source.step 2 1)))
      (f := fun _ ↦ ()) (b := ()) (by decide +kernel)
  obtain ⟨_, refused, rolled⟩ := (parse_agrees_parseLiteral "1d20>=2d6").2 t first
  have plain : firstNested? "4d6kh3".toList = none := rfl
  obtain ⟨literal, _⟩ := (parse_agrees_parseLiteral "4d6kh3").1 plain
  exact ⟨t, spec, c', first, span, refused, run, (rolled Source _ _ _ run).1, plain, literal⟩

end Rolling

end DicePool
