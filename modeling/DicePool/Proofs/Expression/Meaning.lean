import DicePool.Expression.Parse
import DicePool.Proofs.Expression.Cursor
import DicePool.Proofs.Expression.Resolve

/-!
# The meaning of a reading

What the parts of a reading stand for, letter by letter, and which numbers they allow. Of each kind
of modifier the last method counts, adjustments are summed up, an evaluator goes before all success
methods and a check of the total before all other checks.
-/

namespace DicePool.Grammar

/-- The letters of methods whose omitted number is the largest face. -/
def highLetters : List TokenKind :=
  [.success, .explode, .compound, .penetrate, .compoundPenetrate, .keep, .keepHighest,
    .dropHighest, .naturalSuccess]

/-- The letters of methods whose omitted number is one. -/
def lowLetters : List TokenKind :=
  [.fail, .keepLowest, .dice, .dropLowest, .reroll, .rerollOnce, .naturalFail]

/-- The number that letters of a method have when none is written. -/
def omitted (maxFace : Int) (k : TokenKind) : Int :=
  if k ∈ highLetters then maxFace else if k ∈ lowLetters then 1 else 0

/-- The signs that subtract. -/
def negatives : List TokenKind := [.minus, .equalMinus]

/-- What an operation adds to the total. -/
def Operation.shift (o : Operation) : Int :=
  if o.operator.kind ∈ negatives then -o.amount.number else o.amount.number

namespace Item

/-- The number of a method. -/
def amount (maxFace : Int) (i : Item) : Int :=
  i.amount?.elim (omitted maxFace i.letters.kind) fun n ↦ n.number

/-- The condition of a method that compares; an omitted operator is equality. -/
def condition (maxFace : Int) (i : Item) : Condition where
  comparison := (i.operator?.bind fun o ↦ o.kind.comparison?).getD .equal
  threshold := i.amount maxFace

/-- The boost of a method; an omitted operator adds. -/
def boost (maxFace : Int) (i : Item) : Boost where
  operator := (i.operator?.bind fun o ↦ o.kind.arithmetic?).getD .add
  magnitude := i.amount maxFace

/-- The dice that a method keeps or drops: none for a negative number, and at most as many as the
greatest 32-bit number. -/
def selection (maxFace : Int) (layer : Layer) (i : Item) : Selection where
  layer := layer
  count := min (i.amount maxFace).toNat 4294967295

/-- The modifier that a method stands for, unless it adjusts the total. -/
def modifier? (maxFace : Int) (i : Item) : Option Modifier :=
  match i.letters.kind with
  | .boost => some (.boost (i.boost maxFace))
  | .keep | .keepHighest => some (.keep (i.selection maxFace .high))
  | .keepLowest => some (.keep (i.selection maxFace .low))
  | .dice | .dropLowest => some (.drop (i.selection maxFace .low))
  | .dropHighest => some (.drop (i.selection maxFace .high))
  | .explode => some (.explode ⟨i.condition maxFace, false, false⟩)
  | .compound => some (.explode ⟨i.condition maxFace, true, false⟩)
  | .penetrate => some (.explode ⟨i.condition maxFace, false, true⟩)
  | .compoundPenetrate => some (.explode ⟨i.condition maxFace, true, true⟩)
  | .reroll => some (.reroll ⟨i.condition maxFace, false⟩)
  | .rerollOnce => some (.reroll ⟨i.condition maxFace, true⟩)
  | .success => some (.success (i.condition maxFace))
  | .fail => some (.fail (i.condition maxFace))
  | .naturalSuccess => some (.naturalSuccess (i.condition maxFace))
  | .naturalFail => some (.naturalFail (i.condition maxFace))
  | .totalCheck => some (.totalCheck (i.condition maxFace))
  | _ => none

/-- What a method adds to the total; nothing unless it adjusts. -/
def shift (i : Item) : Int :=
  if i.letters.kind = .adjust then
    if i.operator?.any fun o ↦ o.kind ∈ negatives then -i.amount 0 else i.amount 0
  else 0

end Item

namespace Reading

/-- What the adjustments add to the total, in order. -/
def shifts (r : Reading) : List Int :=
  r.assigned.map Operation.shift ++ r.methods.map Item.shift ++ r.sign?.toList.map Operation.shift

/-- The modifier of the last method of a kind. -/
def last? (maxFace : Int) (r : Reading) (k : ModifierKind) : Option Modifier :=
  ((r.methods.filterMap (Item.modifier? maxFace)).filter fun m ↦ m.kind = k).getLast?

/-- The boost right after the sides. -/
def headBoost? (r : Reading) : Option Modifier :=
  r.boost?.map fun o ↦ .boost ⟨o.operator.kind.arithmetic?.getD .add, o.amount.number⟩

/-- The success condition of the evaluator; an omitted number is the largest face. -/
def evaluated? (maxFace : Int) (r : Reading) : Option Modifier :=
  r.evaluator?.map fun e ↦
    .success ⟨e.operator.kind.comparison?.getD .equal,
      e.amount?.elim maxFace fun n ↦ n.number⟩

/-- The check of the total at the end. -/
def trailingCheck? (r : Reading) : Option Modifier :=
  r.check?.map fun o ↦ .totalCheck ⟨o.operator.kind.comparison?.getD .equal, o.amount.number⟩

/-- The modifier of each kind that a reading stands for when the faces are numbers. -/
def meaning? (maxFace : Int) (r : Reading) : ModifierKind → Option Modifier
  | .boost => ((r.last? maxFace .boost).or r.headBoost?).or (some (.boost ⟨.add, 0⟩))
  | .adjust => some (.adjust r.shifts.sum)
  | .success =>
    ((r.evaluated? maxFace).or (r.last? maxFace .success)).or
      (some (.success ⟨.greaterEqual, maxFace⟩))
  | .totalCheck => r.trailingCheck?.or (r.last? maxFace .totalCheck)
  | k => r.last? maxFace k

end Reading

/-- Whether sides are a number from 1 to 100 or a list of faces. -/
def SidesAllowed (t : Token) : Prop :=
  (t.kind = .integer → 1 ≤ t.number ∧ t.number ≤ 100) ∧
    (t.kind = .faceList → (FaceSet.ofText? t.text).isSome = true)

/-- Whether the number of a method is allowed. Counts of dice fit 64 bits, all other numbers are
bounded, and no boost divides by zero, which an omitted number counts as. -/
def Item.Allowed (i : Item) : Prop :=
  if i.letters.kind ∈ pools then ∀ n ∈ i.amount?, n.number < 2 ^ 64
  else (∀ n ∈ i.amount?, n.number ≤ maxLiteral) ∧
    (i.letters.kind = .boost → (∃ o ∈ i.operator?, o.kind = .slash) →
      ∃ n ∈ i.amount?, n.number ≠ 0)

/-- Whether the numbers of a reading are allowed, those of the adjustments also added up one after
the other. -/
structure Reading.Allowed (r : Reading) : Prop where
  sides : SidesAllowed r.sides
  count : 1 ≤ r.count.number ∧ r.count.number ≤ 200
  boost : ∀ o ∈ r.boost?,
    o.amount.number ≤ maxLiteral ∧ (o.operator.kind = .slash → o.amount.number ≠ 0)
  assigned : ∀ o ∈ r.assigned, o.amount.number ≤ maxLiteral
  evaluator : ∀ e ∈ r.evaluator?, ∀ n ∈ e.amount?, n.number ≤ maxLiteral
  methods : ∀ i ∈ r.methods, i.Allowed
  check : ∀ o ∈ r.check?, o.amount.number ≤ maxLiteral
  sign : ∀ o ∈ r.sign?, o.amount.number ≤ maxLiteral
  sums : ∀ s ∈ r.shifts.scanl (· + ·) 0, s.natAbs ≤ maxLiteral

open Expression

private theorem arithmetic?_eq_divide {k : TokenKind} :
    k.arithmetic? = some .divide ↔ k = .slash := by
  cases k <;> simp [TokenKind.arithmetic?]

/-- An optional operator divides if it is a slash. -/
theorem bind_arithmetic?_eq_divide {operator? : Option Token} :
    (operator?.bind fun o ↦ o.kind.arithmetic?) = some .divide ↔
      ∃ o ∈ operator?, o.kind = .slash := by
  simp [Option.bind_eq_some_iff, arithmetic?_eq_divide]

private theorem numberOr_ne_zero {n? : Option Token} :
    numberOr 0 n? ≠ 0 ↔ ∃ n ∈ n?, n.number ≠ 0 := by
  cases n? <;> simp [numberOr]

/-- The clause of a method is permitted exactly if the number of the method is allowed. -/
theorem Item.permitted_iff {i : Item} (h : i.WellFormed) :
    (∀ c ∈ i.clause?, c.Permitted) ↔ i.Allowed := by
  obtain ⟨m, hm⟩ := Option.isSome_iff_exists.mp ((isSome_method? _).mpr h.1)
  have clause : (∀ c ∈ i.clause?, c.Permitted) ↔ (i.clauseOf m).Permitted := by
    simp [Item.clause?, hm]
  rw [clause]
  cases m with
  | boost =>
    have hk := method?_eq_boost.mp hm
    have hp : TokenKind.boost ∉ pools := by decide
    simp only [Item.clauseOf, Clause.Permitted, Item.Allowed, hk, if_neg hp, forall_const,
      bind_arithmetic?_eq_divide, numberOr_ne_zero]
  | adjust =>
    have hk := method?_eq_adjust.mp hm
    have hp : TokenKind.adjust ∉ pools := by decide
    simp [Item.clauseOf, Clause.Permitted, Item.Allowed, hk, if_neg hp]
  | keep layer =>
    rw [Item.Allowed, if_pos (mem_pools_of_keep hm)]
    rfl
  | drop layer =>
    rw [Item.Allowed, if_pos (mem_pools_of_drop hm)]
    rfl
  | test t =>
    have hp : i.letters.kind ∉ pools ∧ i.letters.kind ≠ .boost := by
      revert hm
      cases i.letters.kind <;> simp [method?, pools]
    simp [Item.clauseOf, Clause.Permitted, Item.Allowed, hp]

private theorem forall_mem_map_toList {α β : Type} {o? : Option α} {f : α → β} {P : β → Prop} :
    (∀ b ∈ o?.toList.map f, P b) ↔ ∀ o ∈ o?, P (f o) := by
  cases o? <;> simp

private theorem Operation.permitted_boost {o : Operation} :
    o.boost.Permitted ↔
      o.amount.number ≤ maxLiteral ∧ (o.operator.kind = .slash → o.amount.number ≠ 0) := by
  simp [Operation.boost, Clause.Permitted, numberOr, arithmetic?_eq_divide]

private theorem Operation.permitted_adjust {o : Operation} :
    o.adjust.Permitted ↔ o.amount.number ≤ maxLiteral := by
  simp [Operation.adjust, Clause.Permitted]

private theorem Operation.permitted_check {o : Operation} :
    o.check.Permitted ↔ o.amount.number ≤ maxLiteral := by
  simp [Operation.check, Clause.Permitted]

private theorem Evaluator.permitted {e : Evaluator} :
    e.clause.Permitted ↔ ∀ n ∈ e.amount?, n.number ≤ maxLiteral := Iff.rfl

private theorem forall_mem_items {items : List Item} (h : ∀ i ∈ items, i.WellFormed) :
    (∀ c ∈ items.filterMap Item.clause?, c.Permitted) ↔ ∀ i ∈ items, i.Allowed := by
  rw [List.forall_mem_filterMap]
  exact forall₂_congr fun i hi ↦ Item.permitted_iff (h i hi)

/-- The clauses of a reading are permitted exactly if its numbers are allowed one by one. -/
theorem Reading.permitted_iff {r : Reading} (h : ∀ i ∈ r.methods, i.WellFormed) :
    (∀ c ∈ r.clauses, c.Permitted) ↔
      (∀ o ∈ r.boost?,
        o.amount.number ≤ maxLiteral ∧ (o.operator.kind = .slash → o.amount.number ≠ 0)) ∧
      (∀ o ∈ r.assigned, o.amount.number ≤ maxLiteral) ∧
      (∀ e ∈ r.evaluator?, ∀ n ∈ e.amount?, n.number ≤ maxLiteral) ∧
      (∀ i ∈ r.methods, i.Allowed) ∧
      (∀ o ∈ r.check?, o.amount.number ≤ maxLiteral) ∧
      (∀ o ∈ r.sign?, o.amount.number ≤ maxLiteral) := by
  simp only [Reading.clauses, List.forall_mem_append, forall_mem_map_toList, List.forall_mem_map,
    forall_mem_items h, Operation.permitted_boost, Operation.permitted_adjust,
    Operation.permitted_check, Evaluator.permitted, and_assoc]

private theorem anySign?_getD (k : TokenKind) :
    (anySign? k).getD false = decide (k ∈ negatives) := by
  cases k <;> rfl

private theorem Operation.shift_adjust (o : Operation) : o.adjust.shift = o.shift := by
  rw [adjust, Clause.shift, signed, anySign?_getD, shift]
  simp only [decide_eq_true_eq, numberOr, Option.elim_some]

private theorem shift_clauseOf {i : Item} {m : Method} (hm : method? i.letters.kind = some m) :
    (i.clauseOf m).shift = i.shift := by
  by_cases hk : i.letters.kind = .adjust
  · have hm' : m = .adjust := Option.some.inj (hm.symm.trans (method?_eq_adjust.mpr hk))
    have negative : (i.operator?.bind fun o ↦ anySign? o.kind).getD false =
        i.operator?.any fun o ↦ o.kind ∈ negatives := by
      cases i.operator? with
      | none => rfl
      | some o => exact anySign?_getD o.kind
    have amount : i.amount 0 = numberOr 0 i.amount? := by
      rw [Item.amount, hk]
      rfl
    rw [hm', Item.clauseOf, Clause.shift, signed, negative, Item.shift, if_pos hk, amount]
  · rw [Item.shift, if_neg hk]
    cases m with
    | adjust => exact absurd (method?_eq_adjust.mp hm) hk
    | _ => rfl

private theorem map_shift_items {items : List Item} (h : ∀ i ∈ items, i.WellFormed) :
    (items.filterMap Item.clause?).map Clause.shift = items.map Item.shift := by
  rw [List.map_filterMap, ← List.filterMap_eq_map]
  apply List.filterMap_congr
  intro i hi
  obtain ⟨m, hm⟩ := Option.isSome_iff_exists.mp ((isSome_method? _).mpr (h i hi).1)
  rw [Item.clause?, hm, Option.map_some, Option.map_some, shift_clauseOf hm]
  rfl

/-- Zeros do not change running sums. -/
theorem forall_mem_scanl_filter {P : Int → Prop} (a : Int) (xs : List Int) :
    (∀ s ∈ (xs.filter (· ≠ 0)).scanl (· + ·) a, P s) ↔ ∀ s ∈ xs.scanl (· + ·) a, P s := by
  induction xs generalizing a with
  | nil => rfl
  | cons x xs ih =>
    by_cases hx : x = 0
    · rw [List.filter_cons_of_neg (by simpa using hx), List.scanl_cons, List.forall_mem_cons, hx,
        Int.add_zero, ih]
      exact ⟨fun h ↦ ⟨h a (init_mem_scanl a xs), h⟩, And.right⟩
    · rw [List.filter_cons_of_pos (by simpa using hx), List.scanl_cons, List.scanl_cons,
        List.forall_mem_cons, List.forall_mem_cons, ih]

/-- Zeros do not change a sum. -/
theorem sum_filter (xs : List Int) : (xs.filter (· ≠ 0)).sum = xs.sum := by
  induction xs with
  | nil => rfl
  | cons x xs ih =>
    by_cases hx : x = 0
    · rw [List.filter_cons_of_neg (by simpa using hx), ih, List.sum_cons, hx, Int.zero_add]
    · rw [List.filter_cons_of_pos (by simpa using hx), List.sum_cons, List.sum_cons, ih]

/-- Clauses other than adjustments move nothing. -/
private theorem filter_shift_clauses {r : Reading} (h : ∀ i ∈ r.methods, i.WellFormed) :
    (r.clauses.map Clause.shift).filter (· ≠ 0) = r.shifts.filter (· ≠ 0) := by
  have boost : ((r.boost?.toList.map Operation.boost).map Clause.shift).filter (· ≠ 0) = [] := by
    cases r.boost? <;> rfl
  have evaluator :
      ((r.evaluator?.toList.map Evaluator.clause).map Clause.shift).filter (· ≠ 0) = [] := by
    cases r.evaluator? <;> rfl
  have check : ((r.check?.toList.map Operation.check).map Clause.shift).filter (· ≠ 0) = [] := by
    cases r.check? <;> rfl
  have adjusted (os : List Operation) :
      (os.map Operation.adjust).map Clause.shift = os.map Operation.shift := by
    rw [List.map_map]
    exact List.map_congr_left fun o _ ↦ o.shift_adjust
  simp only [Reading.clauses, Reading.shifts, List.map_append, List.filter_append, boost,
    evaluator, check, adjusted, map_shift_items h, List.nil_append, List.append_nil]

/-- The clauses of a reading move the adjustment by the sum of its shifts. -/
theorem Reading.sum_shift_clauses {r : Reading} (h : ∀ i ∈ r.methods, i.WellFormed) :
    (r.clauses.map Clause.shift).sum = r.shifts.sum := by
  rw [← sum_filter, filter_shift_clauses h, sum_filter]

/-- The running sums of the clauses of a reading are those of its shifts. -/
theorem Reading.forall_mem_scanl_clauses {r : Reading} (h : ∀ i ∈ r.methods, i.WellFormed)
    {P : Int → Prop} :
    (∀ s ∈ (r.clauses.map Clause.shift).scanl (· + ·) 0, P s) ↔
      ∀ s ∈ r.shifts.scanl (· + ·) 0, P s := by
  rw [← forall_mem_scanl_filter, filter_shift_clauses h, forall_mem_scanl_filter]

/-- The clause of a method sets the modifier that the method stands for. -/
theorem Item.modifier?_clause (maxFace : Int) (i : Item) :
    (i.clause?.bind fun c ↦ c.modifier? maxFace) = i.modifier? maxFace := by
  obtain ⟨⟨kind, span, text⟩, operator?, amount?⟩ := i
  cases kind <;> rfl

private theorem filterMap_modifier?_items (maxFace : Int) (k : ModifierKind) (items : List Item) :
    ((items.filterMap Item.clause?).filterMap fun c ↦
        (c.modifier? maxFace).filter fun m ↦ m.kind = k) =
      (items.filterMap (Item.modifier? maxFace)).filter fun m ↦ m.kind = k := by
  rw [List.filterMap_filterMap, List.filter_filterMap]
  apply List.filterMap_congr
  intro i _
  rw [← i.modifier?_clause maxFace]
  cases i.clause? <;> rfl

private theorem getLast?_filterMap_toList {α β γ : Type} (o? : Option α) (f : α → β)
    (g : β → Option γ) :
    ((o?.toList.map f).filterMap g).getLast? = o?.bind fun o ↦ g (f o) := by
  cases o? with
  | none => rfl
  | some o =>
    rw [Option.toList_some, List.map_singleton, List.filterMap_cons, Option.bind_some]
    cases g (f o) <;> rfl

/-- Of the clauses of a reading the last modifier of a kind is the check or that of the last method
or the boost. -/
theorem Reading.getLast?_modifier? (maxFace : Int) (r : Reading) (k : ModifierKind) :
    (r.clauses.filterMap fun c ↦ (c.modifier? maxFace).filter fun m ↦ m.kind = k).getLast? =
      (r.trailingCheck?.filter fun m ↦ m.kind = k).or
        ((r.last? maxFace k).or (r.headBoost?.filter fun m ↦ m.kind = k)) := by
  have boost : (r.boost?.bind fun o ↦
      (o.boost.modifier? maxFace).filter fun m ↦ m.kind = k) =
        r.headBoost?.filter fun m ↦ m.kind = k := by
    rw [Reading.headBoost?]
    cases r.boost? <;> rfl
  have check : (r.check?.bind fun o ↦
      (o.check.modifier? maxFace).filter fun m ↦ m.kind = k) =
        r.trailingCheck?.filter fun m ↦ m.kind = k := by
    rw [Reading.trailingCheck?]
    cases r.check? <;> rfl
  have evaluator : ((r.evaluator?.toList.map Evaluator.clause).filterMap fun c ↦
      (c.modifier? maxFace).filter fun m ↦ m.kind = k) = [] := by
    cases r.evaluator? <;> rfl
  have adjusted (os : List Operation) : ((os.map Operation.adjust).filterMap fun c ↦
      (c.modifier? maxFace).filter fun m ↦ m.kind = k) = [] := by
    rw [List.filterMap_map, List.filterMap_eq_nil_iff]
    intro o _
    rfl
  simp only [Reading.clauses, List.filterMap_append, evaluator, adjusted,
    filterMap_modifier?_items, List.append_nil, List.getLast?_append, getLast?_filterMap_toList,
    boost, check]
  rfl

/-- The evaluator of a reading is the last of its clauses. -/
theorem Reading.getLast?_evaluator? (maxFace : Int) (r : Reading) :
    ((r.clauses.filterMap fun c ↦ c.evaluator? maxFace).getLast?).map .success =
      r.evaluated? maxFace := by
  have items : (r.methods.filterMap Item.clause?).filterMap
      (fun c ↦ c.evaluator? maxFace) = [] := by
    rw [List.filterMap_filterMap, List.filterMap_eq_nil_iff]
    intro i _
    unfold Item.clause?
    cases method? i.letters.kind with
    | none => rfl
    | some m => cases m <;> rfl
  have boost : (r.boost?.toList.map Operation.boost).filterMap
      (fun c ↦ c.evaluator? maxFace) = [] := by
    cases r.boost? <;> rfl
  have check : (r.check?.toList.map Operation.check).filterMap
      (fun c ↦ c.evaluator? maxFace) = [] := by
    cases r.check? <;> rfl
  have adjusted (os : List Operation) : (os.map Operation.adjust).filterMap
      (fun c ↦ c.evaluator? maxFace) = [] := by
    rw [List.filterMap_map, List.filterMap_eq_nil_iff]
    intro o _
    rfl
  simp only [Reading.clauses, List.filterMap_append, items, boost, check, adjusted,
    List.append_nil, List.nil_append, getLast?_filterMap_toList]
  rw [Reading.evaluated?]
  cases r.evaluator? <;> rfl

private theorem filter_trailingCheck? (r : Reading) (k : ModifierKind) :
    (r.trailingCheck?.filter fun m ↦ m.kind = k) =
      if k = .totalCheck then r.trailingCheck? else none := by
  unfold Reading.trailingCheck?
  cases r.check? with
  | none => cases k <;> rfl
  | some o => cases k <;> rfl

private theorem filter_headBoost? (r : Reading) (k : ModifierKind) :
    (r.headBoost?.filter fun m ↦ m.kind = k) = if k = .boost then r.headBoost? else none := by
  unfold Reading.headBoost?
  cases r.boost? with
  | none => cases k <;> rfl
  | some o => cases k <;> rfl

/-- The draft of a reading has the modifiers that it stands for, but for the defaults. -/
private theorem get?_draft (maxFace : Int) (r : Reading) {k : ModifierKind} (hk : k ≠ .adjust) :
    (draftOf maxFace r.clauses Draft.start).modifiers.get? k =
      ((if k = .totalCheck then r.trailingCheck? else none).or
        ((r.last? maxFace k).or (if k = .boost then r.headBoost? else none))).or
        (Draft.start.modifiers.get? k) := by
  rw [get?_draftOf _ _ _ hk, r.getLast?_modifier?, filter_trailingCheck?, filter_headBoost?]

/-- A finished draft has the modifiers of the draft, but for the successes. -/
theorem get?_finish_of_ne {faces : FaceSet} (hn : faces.isNumeric = true) (d : Draft)
    {k : ModifierKind} (hk : k ≠ .success) : (d.finish faces).get? k = d.modifiers.get? k := by
  rw [Draft.finish, if_pos hn]
  cases k with
  | success => exact absurd rfl hk
  | _ => rfl

/-- The modifiers that the clauses of a reading with numeric faces resolve to are those that it
stands for. -/
theorem Reading.get?_finish {r : Reading} (h : ∀ i ∈ r.methods, i.WellFormed) {faces : FaceSet}
    (hn : faces.isNumeric = true) (k : ModifierKind) :
    ((draftOf (faces.max?.getD 0) r.clauses Draft.start).finish faces).get? k =
      r.meaning? (faces.max?.getD 0) k := by
  have plain (k : ModifierKind) (hk : k ∉ [.boost, .adjust, .success, .totalCheck]) :
      ((draftOf (faces.max?.getD 0) r.clauses Draft.start).finish faces).get? k =
        r.last? (faces.max?.getD 0) k := by
    simp only [List.mem_cons, List.not_mem_nil, or_false, not_or] at hk
    obtain ⟨hb, ha, hs, ht⟩ := hk
    have start : Draft.start.modifiers.get? k = none := by
      cases k <;> first | rfl | contradiction
    rw [get?_finish_of_ne hn _ hs, get?_draft _ _ ha, if_neg ht, if_neg hb, start, Option.none_or,
      Option.or_none, Option.or_none]
  cases k with
  | boost =>
    rw [get?_finish_of_ne hn _ (by decide), get?_draft _ _ (by decide)]
    rfl
  | adjust =>
    have adjust := adjust?_draftOf (faces.max?.getD 0) r.clauses (d := Draft.start) (a := 0) rfl
    rw [get?_finish_of_ne hn _ (by decide), Modifiers.get?, adjust, Int.zero_add,
      Reading.sum_shift_clauses h]
    rfl
  | success =>
    have evaluated := r.getLast?_evaluator? (faces.max?.getD 0)
    have success := get?_draft (faces.max?.getD 0) r (k := .success) (by decide)
    have evaluator := evaluator?_draftOf (faces.max?.getD 0) r.clauses Draft.start
    have start : Draft.start.modifiers.get? .success = none := rfl
    have unset : Draft.start.evaluator? = none := rfl
    rw [if_neg (by decide), if_neg (by decide), start, Option.none_or, Option.or_none,
      Option.or_none, Modifiers.get?] at success
    rw [unset, Option.or_none] at evaluator
    rw [Draft.finish, if_pos hn, Modifiers.get?, evaluator, Option.map_or, Option.map_or,
      evaluated, success, ← Option.or_assoc]
    rfl
  | totalCheck =>
    have start : Draft.start.modifiers.get? .totalCheck = none := rfl
    rw [get?_finish_of_ne hn _ (by decide), get?_draft _ _ (by decide), if_pos rfl,
      if_neg (by decide), start, Option.or_none, Option.or_none]
    rfl
  | _ => exact plain _ (by decide)

end DicePool.Grammar
