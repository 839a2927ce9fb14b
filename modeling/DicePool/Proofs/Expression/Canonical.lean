import DicePool.Proofs.Expression.Relabel
import DicePool.Proofs.Expression.Reorder
import DicePool.Proofs.Expression.Rewrite
import DicePool.Proofs.Expression.Written
import DicePool.Proofs.Roll.Expression

/-!
# Canonical expressions

The text of a specification that was read is an expression again, as long as no threshold is
negative. The reading that is written follows the grammar, has allowed numbers and stands for the
same specification, but for a boost without effect.
-/

namespace DicePool

open Grammar Token

namespace Spec

variable {s : Spec}

/-- A method that sets a modifier has its number, and an operator where it can have one. -/
theorem full_of_method? {m : Modifier} {i : Item} (hm : m.method? = some i) :
    i.WellFormed ∧ i.amount?.isSome = true ∧
      (i.operator? = none → operators i.letters.kind = []) := by
  rcases Modifier.method?_cases hm with ⟨letters, hl, c, _, rfl⟩ | ⟨letters, hl, s, _, rfl⟩
  · have kinds : letters ∈ methodLetters ∧ operators letters = comparisons := by
      revert hl
      cases letters <;> decide
    refine ⟨⟨kinds.1, ?_, ?_⟩, rfl, by rintro ⟨⟩⟩
    · rintro _ ⟨⟩
      exact kinds.2 ▸ c.comparison.kind_mem
    · rintro _ ⟨⟩
      rfl
  · have kinds : letters ∈ methodLetters ∧ operators letters = [] := by
      revert hl
      cases letters <;> decide
    refine ⟨⟨kinds.1, by rintro _ ⟨⟩, ?_⟩, rfl, fun _ ↦ kinds.2⟩
    rintro _ ⟨⟩
    rfl

/-- What holds of each method before any tokens holds of a row of methods. -/
theorem eachBefore_of_forall {rest : List Token} {P : Item → List Token → Prop}
    {items : List Item} (h : ∀ i ∈ items, ∀ after, P i after) : EachBefore rest P items := by
  induction items with
  | nil => trivial
  | cons i items ih =>
    rw [List.forall_mem_cons] at h
    exact ⟨h.1 _, ih h.2⟩

private theorem full_of_mem {i : Item} (h : i ∈ s.reading.methods) :
    i.WellFormed ∧ i.amount?.isSome = true ∧
      (i.operator? = none → operators i.letters.kind = []) := by
  obtain ⟨m, _, hm⟩ := List.mem_filterMap.mp h
  exact full_of_method? hm

/-- A written adjustment is an assigned sign. -/
theorem of_assignment (a : Int) : (assignment a).Of assignedSigns := by
  refine ⟨?_, rfl⟩
  change (if a < 0 then TokenKind.equalMinus else .equalPlus) ∈ assignedSigns
  split <;> decide

/-- The reading of a text follows the grammar. -/
theorem wellFormed_reading (s : Spec) : s.reading.WellFormed where
  count := rfl
  dice := rfl
  sides := s.faces.kind_sides
  boost := by
    intro o ho
    obtain ⟨b, _, rfl⟩ := Option.map_eq_some_iff.mp ho
    exact ⟨by change b.operator.kind ∈ arithmetic; cases b.operator <;> decide, rfl⟩
  assigned := by
    intro o ho
    obtain ⟨a, _, rfl⟩ := List.mem_map.mp ho
    exact of_assignment a
  evaluator := by
    intro e he
    obtain ⟨c, _, rfl⟩ := Option.map_eq_some_iff.mp he
    refine ⟨c.comparison.kind_mem, ?_⟩
    rintro _ ⟨⟩
    rfl
  methods := eachBefore_of_forall fun i hi after ↦ by
    obtain ⟨wf, amount, _⟩ := full_of_mem hi
    refine ⟨wf, fun _ none ↦ ?_⟩
    rw [none] at amount
    contradiction
  check := by rintro _ ⟨⟩
  sign := by rintro _ ⟨⟩

/-- The reading of a text leaves nothing out that could be read. -/
theorem greedy_reading (s : Spec) : s.reading.Greedy := by
  have wf := s.wellFormed_reading
  have nothing : s.reading.afterMethods = [] := rfl
  refine wf.greedy (fun _ starts ↦ ?_) (fun _ starts ↦ ?_)
    (eachBefore_of_forall fun i hi after ↦ ?_)
  · have starts := starts.starts
    obtain ⟨assigned, evaluator, methods, _⟩ := wf.eq_nil_of_starts_arithmetic starts
    rw [Reading.afterBoost, Reading.afterAssigned, Reading.afterEvaluator, assigned, evaluator,
      methods, nothing] at starts
    exact not_starts_nil starts
  · have methods := wf.methods_eq_nil (by decide) starts
    rw [Reading.afterEvaluator, methods, nothing] at starts
    exact not_starts_nil starts
  · obtain ⟨_, amount, operator⟩ := full_of_mem hi
    constructor
    · intro none starts
      obtain ⟨t, _, ht⟩ := starts
      rw [operator none] at ht
      contradiction
    · intro none
      rw [none] at amount
      contradiction

end Spec

/-- A written boost stands for itself. -/
theorem Boost.eq_of_operation {b : Boost} (h : 0 ≤ b.magnitude) :
    (⟨b.operation.operator.kind.arithmetic?.getD .add, b.operation.amount.number⟩ : Boost) = b := by
  obtain ⟨operator, magnitude⟩ := b
  have amount : ((numeral magnitude.toNat).number : Int) = magnitude := by
    rw [number_numeral, Int.toNat_of_nonneg h]
  cases operator <;> exact congrArg _ amount

/-- A written condition stands for itself. -/
theorem Condition.eq_of_evaluator {c : Condition} (h : 0 ≤ c.threshold) :
    (⟨(word c.comparison.kind).kind.comparison?.getD .equal,
      (numeral c.threshold.toNat).number⟩ : Condition) = c := by
  obtain ⟨comparison, threshold⟩ := c
  have amount : ((numeral threshold.toNat).number : Int) = threshold := by
    rw [number_numeral, Int.toNat_of_nonneg h]
  cases comparison <;> exact congrArg _ amount

/-- A written adjustment moves the total by itself. -/
theorem shift_assignment (a : Int) : (assignment a).shift = a := by
  change (if (if a < 0 then TokenKind.equalMinus else .equalPlus) ∈ negatives
    then -((numeral a.natAbs).number : Int) else (numeral a.natAbs).number) = a
  rw [number_numeral]
  by_cases negative : a < 0
  · rw [if_pos negative, if_pos (by decide)]
    omega
  · rw [if_neg negative, if_neg (by decide)]
    omega

private theorem Condition.condition_method {c : Condition} (maxFace : Int) (letters : TokenKind)
    (h : 0 ≤ c.threshold) : (c.method letters).condition maxFace = c :=
  c.eq_of_evaluator h

private theorem Selection.selection_method {s : Selection} (maxFace : Int) (letters : TokenKind)
    (h : s.count ≤ Expression.maxCount) :
    (s.method letters).selection maxFace s.layer = s := by
  have count : min (((numeral s.count).number : Int)).toNat 4294967295 = s.count := by
    rw [number_numeral, Int.toNat_natCast]
    exact Nat.min_eq_left h
  exact congrArg (Selection.mk s.layer) count

/-- A method that sets a modifier stands for it. -/
theorem Modifier.modifier?_of_method? {m : Modifier} {i : Item} (maxFace : Int)
    (hm : m.method? = some i) (bounded : m.Bounded) (h : ∀ c ∈ m.condition?, 0 ≤ c.threshold) :
    i.modifier? maxFace = some m := by
  cases m with
  | boost | adjust | success => contradiction
  | keep s | drop s =>
    obtain rfl := Option.some.inj hm
    obtain ⟨layer, count⟩ := s
    cases layer <;> exact congrArg _ (congrArg _ (Selection.selection_method maxFace _ bounded))
  | explode e =>
    obtain rfl := Option.some.inj hm
    obtain ⟨c, compound, penetrate⟩ := e
    cases compound <;> cases penetrate <;>
      exact congrArg _ (congrArg _ (congrArg (Explosion.mk · _ _)
        (Condition.condition_method maxFace _ (h c rfl))))
  | reroll r =>
    obtain rfl := Option.some.inj hm
    obtain ⟨c, once⟩ := r
    cases once <;>
      exact congrArg _ (congrArg _ (congrArg (Reroll.mk · _)
        (Condition.condition_method maxFace _ (h c rfl))))
  | fail c | naturalSuccess c | naturalFail c | totalCheck c =>
    obtain rfl := Option.some.inj hm
    exact congrArg _ (congrArg _ (Condition.condition_method maxFace _ (h c rfl)))

/-- The number of a method that sets a modifier within the limits is allowed. -/
theorem Modifier.allowed_of_method? {m : Modifier} {i : Item} (hm : m.method? = some i)
    (bounded : m.Bounded) : i.Allowed := by
  rcases method?_cases hm with ⟨letters, hl, c, hc, rfl⟩ | ⟨letters, hl, s, hs, rfl⟩
  · have kinds : letters ∉ pools ∧ letters ≠ .boost := by
      revert hl
      cases letters <;> decide
    refine (if_neg kinds.1).mpr ⟨?_, fun boost ↦ absurd boost kinds.2⟩
    rintro _ ⟨⟩
    rw [number_numeral]
    exact (bounded.condition hc).toNat_le
  · have kinds : letters ∈ pools := by
      revert hl
      cases letters <;> decide
    have small : s.count ≤ Expression.maxCount := by
      rcases hs with rfl | rfl <;> exact bounded
    refine (if_pos kinds).mpr ?_
    rintro _ ⟨⟩
    rw [number_numeral]
    exact Nat.lt_of_le_of_lt small (by decide)

/-- The last method of each kind is that of the modifier of this kind, where all modifiers after the
first three are written as methods that stand for them. -/
theorem Modifiers.last?_of_methods (m : Modifiers) {r : Reading} {maxFace : Int}
    {f : Modifier → Option Item} (methods : r.methods = m.toList.filterMap f)
    (first : ∀ x : Modifier, x.method? = none → f x = none)
    (hf : ∀ x ∈ m.toList, x.method?.isSome = true →
      ∃ i, f x = some i ∧ i.modifier? maxFace = some x) (k : ModifierKind) :
    r.last? maxFace k = (m.get? k).filter fun x ↦ x.method?.isSome := by
  have getLast? (x? : Option Modifier) (p : Modifier → Bool) :
      (x?.toList.filter p).getLast? = x?.filter p := by
    cases x? with
    | none => rfl
    | some x => cases hp : p x <;> simp [hp, Option.filter]
  have stand : r.methods.filterMap (Item.modifier? maxFace) =
      m.toList.filter fun x ↦ x.method?.isSome := by
    rw [methods, List.filterMap_filterMap, ← List.filterMap_eq_filter]
    apply List.filterMap_congr
    intro x hx
    cases hi : x.method? with
    | none => simp [first x hi, Option.guard, hi]
    | some i =>
      obtain ⟨i, item, modifier⟩ := hf x hx (by rw [hi, Option.isSome_some])
      rw [item, Option.bind_some, modifier]
      simp [Option.guard, hi]
  rw [Reading.last?, stand, List.filter_filter, List.filter_congr fun x _ ↦ Bool.and_comm _ _,
    ← List.filter_filter, Modifiers.filter_toList, getLast?]

namespace Spec

variable {s : Spec}

/-- The boost of the reading is allowed. -/
theorem allowed_boost (bounded : s.Bounded) : ∀ o ∈ s.reading.boost?,
    o.amount.number ≤ maxLiteral ∧ (o.operator.kind = .slash → o.amount.number ≠ 0) := by
  intro o ho
  obtain ⟨b, hb, rfl⟩ := Option.map_eq_some_iff.mp ho
  obtain ⟨nonneg, small, divisor⟩ := bounded.boost (Option.eq_some_of_filter_eq_some hb)
  rw [Boost.operation, number_numeral]
  refine ⟨by omega, fun slash ↦ ?_⟩
  have divides : b.operator = .divide := by
    revert slash
    cases b.operator <;> simp [Arithmetic.kind]
  have ne := divisor divides
  omega

/-- The assigned sign of the reading is allowed. -/
theorem allowed_assigned (bounded : s.Bounded) :
    ∀ o ∈ s.reading.assigned, o.amount.number ≤ maxLiteral := by
  intro o ho
  obtain ⟨a, ha, rfl⟩ := List.mem_map.mp ho
  rw [Option.mem_toList] at ha
  rw [assignment, number_numeral]
  exact bounded.adjust (Option.eq_some_of_filter_eq_some ha)

/-- The assigned sign of the reading moves the total by the adjustment. -/
theorem map_shift_assigned (s : Spec) : s.reading.assigned.map Operation.shift =
    (s.modifiers.adjust?.filter fun a ↦ a ≠ 0).toList := by
  rw [reading, List.map_map]
  exact (List.map_congr_left fun a _ ↦ shift_assignment a).trans (List.map_id _)

variable (bounded : s.Bounded) (unsigned : s.Unsigned)

include bounded unsigned

/-- The last method of a kind is that of the modifier of this kind. -/
private theorem last?_reading (maxFace : Int) (k : ModifierKind) :
    s.reading.last? maxFace k = (s.modifiers.get? k).filter fun m ↦ m.method?.isSome := by
  apply s.modifiers.last?_of_methods (f := Modifier.method?) rfl fun _ ↦ id
  intro m hm hi
  obtain ⟨i, hi⟩ := Option.isSome_iff_exists.mp hi
  exact ⟨i, hi, m.modifier?_of_method? maxFace hi (bounded.of_mem hm) (unsigned m hm)⟩

/-- Of the shifts of the reading only that of the adjustment counts. -/
private theorem filter_shifts_reading :
    s.reading.shifts.filter (· ≠ 0) = (s.modifiers.adjust?.filter fun a ↦ a ≠ 0).toList := by
  have methods : (s.reading.methods.map Item.shift).filter (· ≠ 0) = [] := by
    rw [List.filter_eq_nil_iff, List.forall_mem_map]
    intro i hi
    obtain ⟨m, hm, method⟩ := List.mem_filterMap.mp hi
    have modifier := m.modifier?_of_method? 0 method (bounded.of_mem hm) (unsigned m hm)
    rw [Item.shift, if_neg (Item.kind_of_modifier? modifier).2]
    decide
  have sign : s.reading.sign?.toList.map Operation.shift = [] := rfl
  rw [Reading.shifts, List.filter_append, List.filter_append, methods, s.map_shift_assigned, sign]
  cases s.modifiers.adjust? with
  | none => rfl
  | some a => by_cases ha : a = 0 <;> simp [Option.filter, ha]

/-- The reading adds the adjustment to the total. -/
private theorem sum_shifts_reading :
    s.reading.shifts.sum = s.modifiers.adjustment := by
  rw [← sum_filter, filter_shifts_reading bounded unsigned, Modifiers.adjustment]
  cases s.modifiers.adjust? with
  | none => rfl
  | some a => by_cases ha : a = 0 <;> simp [Option.filter, ha]

/-- The numbers of the reading are allowed. -/
theorem allowed_reading : s.reading.Allowed where
  sides := (exists_sides_iff s.faces.kind_sides).mp ⟨_, FaceSet.sides_sides bounded.faces⟩
  count := by
    change 1 ≤ (numeral s.count).number ∧ (numeral s.count).number ≤ maxDice
    rw [number_numeral]
    exact bounded.count
  boost := allowed_boost bounded
  assigned := allowed_assigned bounded
  evaluator := by
    intro e he n hn
    obtain ⟨c, hc, rfl⟩ := Option.map_eq_some_iff.mp he
    obtain rfl := Option.some.inj hn
    rw [number_numeral]
    exact (bounded.success hc).toNat_le
  methods := by
    intro i hi
    obtain ⟨m, hm, method⟩ := List.mem_filterMap.mp hi
    exact m.allowed_of_method? method (bounded.of_mem hm)
  check := by rintro _ ⟨⟩
  sign := by rintro _ ⟨⟩
  sums := by
    rw [← forall_mem_scanl_filter, filter_shifts_reading bounded unsigned]
    cases ha : s.modifiers.adjust?.filter fun a ↦ a ≠ 0 with
    | none => simp
    | some a => simpa using bounded.adjust (Option.eq_some_of_filter_eq_some ha)

end Spec

/-- A boost without effect is the one that adds zero. -/
def Boost.canonical (b : Boost) : Boost := if b.isIdentity then .identity else b

/-- A specification with a boost without effect written as the one that adds zero. -/
def Spec.canonical (s : Spec) : Spec :=
  { s with modifiers := { s.modifiers with boost? := s.modifiers.boost?.map Boost.canonical } }

namespace Spec

variable {s : Spec}

/-- A boost without effect is not written either way. -/
theorem text_canonical (s : Spec) : s.canonical.text = s.text := by
  have boost : ((s.modifiers.boost?.map Boost.canonical).map Modifier.boost).toList.map
      modifierText = (s.modifiers.boost?.map Modifier.boost).toList.map modifierText := by
    cases s.modifiers.boost? with
    | none => rfl
    | some b =>
      by_cases hb : b.isIdentity = true
      · simp [modifierText, Boost.canonical, hb]
        decide
      · simp [Boost.canonical, hb]
  have texts : s.canonical.modifiers.toList.map modifierText =
      s.modifiers.toList.map modifierText := by
    simp only [Modifiers.toList_eq, List.map_append]
    exact congrArg (· ++ _) boost
  rw [text, text, texts]
  rfl

private theorem filter_get? (m : Modifiers) {k : ModifierKind}
    (hk : k ∈ ModifierKind.all.drop 3) :
    ((m.get? k).filter fun x ↦ x.method?.isSome) = m.get? k := by
  cases hx : m.get? k with
  | none => rfl
  | some x =>
    rw [← Modifiers.kind_of_get? hx] at hk
    cases x with
    | boost | adjust | success => simp [Modifier.kind, ModifierKind.all] at hk
    | _ => rfl

/-- A reading with the boost of a specification and the methods of its modifiers stands for the
modifiers of the canonical specification, but for adjustment and success. -/
theorem meaning?_of_last? (bounded : s.Bounded) (hn : s.isNumeric = true) {r : Reading}
    {maxFace : Int} (boost : r.boost? = s.reading.boost?) (check : r.check? = none)
    (last : ∀ k, r.last? maxFace k = (s.modifiers.get? k).filter fun m ↦ m.method?.isSome)
    {k : ModifierKind} (adjust : k ≠ .adjust) (success : k ≠ .success) :
    r.meaning? maxFace k = s.canonical.modifiers.get? k := by
  cases k with
  | adjust => contradiction
  | success => contradiction
  | boost =>
    obtain ⟨b, hb⟩ := Option.isSome_iff_exists.mp (bounded.numeric hn).1
    have nonneg := (bounded.boost hb).1
    have none : r.last? maxFace .boost = none := by
      simp only [last, Modifiers.get?, hb]
      rfl
    rw [Reading.meaning?, none, Option.none_or, Reading.headBoost?, boost, canonical,
      Modifiers.get?, reading, hb]
    by_cases hi : b.isIdentity = true
    · simp [Option.filter, hi, Boost.canonical, Boost.identity]
    · simp [Option.filter, hi, Boost.canonical, b.eq_of_operation nonneg]
  | totalCheck =>
    rw [Reading.meaning?, Reading.trailingCheck?, check]
    exact (last .totalCheck).trans (filter_get? _ (by decide))
  | _ => exact (last _).trans (filter_get? _ (by decide))

section Meaning

variable (bounded : s.Bounded) (unsigned : s.Unsigned) (maxFace : Int)

include bounded unsigned

/-- The reading moves the total as the specification does. -/
private theorem meaning?_adjust {a : Int} (ha : s.modifiers.adjust? = some a) :
    s.reading.meaning? maxFace .adjust = some (.adjust a) := by
  change some (Modifier.adjust s.reading.shifts.sum) = _
  rw [sum_shifts_reading bounded unsigned, Modifiers.adjustment, ha]
  rfl

omit bounded in
/-- The reading counts successes as the specification does. -/
private theorem meaning?_success {c : Condition} (hc : s.modifiers.success? = some c) :
    s.reading.meaning? maxFace .success = some (.success c) := by
  have mem : .success c ∈ s.modifiers.toList :=
    Modifiers.mem_toList_iff.mpr (congrArg (Option.map Modifier.success) hc)
  change (((s.modifiers.success?.map Condition.evaluator).map _).or _).or _ = _
  rw [hc]
  exact congrArg (some ∘ Modifier.success) (c.eq_of_evaluator (unsigned _ mem c rfl))

/-- With numeric faces the reading stands for the modifiers of the canonical specification. -/
private theorem meaning?_reading (hn : s.isNumeric = true) (k : ModifierKind) :
    s.reading.meaning? maxFace k = s.canonical.modifiers.get? k := by
  obtain ⟨_, adjust, success⟩ := bounded.numeric hn
  cases k with
  | adjust =>
    obtain ⟨a, ha⟩ := Option.isSome_iff_exists.mp adjust
    rw [meaning?_adjust bounded unsigned maxFace ha, canonical, Modifiers.get?, ha]
    rfl
  | success =>
    obtain ⟨c, hc⟩ := Option.isSome_iff_exists.mp success
    rw [meaning?_success unsigned maxFace hc, canonical, Modifiers.get?, hc]
    rfl
  | _ =>
    exact meaning?_of_last? bounded hn rfl rfl (last?_reading bounded unsigned maxFace)
      (by decide) (by decide)

end Meaning

/-- The reading stands for the canonical specification. -/
theorem spec_reading (bounded : s.Bounded) (unsigned : s.Unsigned) :
    s.reading.spec s.faces = s.canonical := by
  have modifiers : (s.reading.spec s.faces).modifiers = s.canonical.modifiers := by
    cases hn : s.faces.isNumeric with
    | false =>
      obtain ⟨a, only⟩ := bounded.labelled hn
      rw [Reading.modifiers_of_labels s.wellFormed_reading hn,
        sum_shifts_reading bounded unsigned, canonical, only]
      rfl
    | true =>
      have methods := wellFormed_of_fits s.wellFormed_reading.methods
      exact modifiers_ext fun k ↦
        (Reading.get?_finish methods hn k).trans (meaning?_reading bounded unsigned _ hn k)
  have count : (numeral s.count).number = s.count := number_numeral s.count
  obtain ⟨n, faces, m, substitutions⟩ := s
  obtain rfl : substitutions = [] := bounded.substitutions
  rw [Spec.mk.injEq]
  exact ⟨count, rfl, modifiers, rfl⟩

/-- The text of a specification has no nested dice. -/
theorem nestedTerms_text {s : Spec} (bounded : s.Bounded) (unsigned : s.Unsigned) :
    Expression.nestedTerms s.text.toList = [] := by
  have kinds : (place 0 s.reading.tokens).map Token.kind = s.reading.tokens.map Token.kind := by
    have lexemes := congrArg (List.map Prod.fst) (map_lexeme_place 0 s.reading.tokens)
    rwa [List.map_map, List.map_map] at lexemes
  rw [Expression.nestedTerms, ← joined_reading bounded unsigned,
    scan_joined (pieces_reading bounded)]
  refine Expression.nestedTermsOf_eq_nil ?_
  have sides : s.faces.sides.kind ≠ .dice := by
    rcases s.faces.kind_sides with hk | hk <;> rw [hk] <;> decide
  rw [kinds]
  change TokenKind.dice ∉ s.faces.sides.kind :: s.reading.afterSides.map Token.kind
  rw [s.afterSides_reading]
  intro dice
  rcases List.mem_cons.mp dice with dice | dice
  · exact sides dice.symm
  · obtain ⟨t, ht, dice⟩ := List.mem_map.mp dice
    obtain ⟨m, _, ht⟩ := List.mem_flatMap.mp ht
    exact m.kind_ne_dice t ht dice

/-- The text of an expression without negative thresholds is read as the same expression, but for a
boost without effect, which is written as the one that adds zero. The expression that is read has
the same text, and it is read alike literally and by rolling, where nothing is rolled. -/
theorem parse_text {text : String} {spec : Spec} (h : Expression.parse text = .ok spec)
    (unsigned : spec.Unsigned) :
    Expression.parse spec.text = .ok spec.canonical ∧ spec.canonical.text = spec.text ∧
      Expression.nestedTerms spec.text.toList = [] ∧
      Expression.parseLiteral spec.text = .ok spec.canonical ∧
      ∀ (σ : Type) [Roller σ] (c : Context σ),
        (Rolling.parse spec.text).run c = (.ok spec.canonical, c) := by
  have bounded := bounded_of_parse h
  have greedy : GreedyReading spec.reading.tokens spec.reading :=
    ⟨spec.wellFormed_reading, spec.greedy_reading, rfl⟩
  have read : Expression.parse spec.text = .ok spec.canonical := by
    rw [← joined_reading bounded unsigned, Expression.parse_joined 0 (pieces_reading bounded)]
    exact (parseTokens_eq_ok_iff greedy).mpr ⟨spec.allowed_reading bounded unsigned, spec.faces,
      FaceSet.sides_sides bounded.faces, (spec.spec_reading bounded unsigned).symm⟩
  have none := nestedTerms_text bounded unsigned
  refine ⟨read, spec.text_canonical, none, ?_, fun σ _ c ↦ ?_⟩
  · rw [Expression.parseLiteral, none]
    exact read
  · rw [Rolling.run_parse_of_nil none, read]

private def higherOfTwo : Spec where
  count := 2
  faces := .cube
  modifiers :=
    { boost? := some ⟨.multiply, 1⟩, adjust? := some 0, success? := some ⟨.greaterEqual, 6⟩,
      keep? := some ⟨.high, 1⟩ }

/-- The higher of two dice with a boost without effect is written without the boost and with the
condition that counts sixes. -/
theorem parse_text_higherOfTwo :
    Expression.parse "2d6*1k1" = .ok higherOfTwo ∧ higherOfTwo.Unsigned ∧
      higherOfTwo.text = "2d6>=6kh1" ∧
      Expression.parse "2d6>=6kh1" = .ok higherOfTwo.canonical := by
  have h : Expression.parse "2d6*1k1" = .ok higherOfTwo := by decide
  have unsigned : ∀ m ∈ higherOfTwo.modifiers.toList, ∀ c ∈ m.condition?, 0 ≤ c.threshold := by
    decide
  have text : higherOfTwo.text = "2d6>=6kh1" := by decide +kernel
  exact ⟨h, unsigned, text, text ▸ (parse_text h unsigned).1⟩

end Spec

end DicePool
