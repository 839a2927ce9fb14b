import DicePool.Proofs.Expression.Legible
import Mathlib.Algebra.Order.BigOperators.Group.List

/-!
# Negative thresholds read back

A threshold that was read is negative only where it was left out, and is the largest face then. Its
minus is read as a change of the total, so that no specification with a negative threshold is read
back from its text.
-/

namespace DicePool

open Grammar Token

/-- The success condition that is read: one that assigns leaves the default in its place. -/
def Condition.misread (c : Condition) : Condition :=
  if c.assigns then ⟨.greaterEqual, c.threshold⟩ else c

/-- The threshold of a modifier as far as it is negative. -/
def Modifier.deficit (m : Modifier) : Int := m.condition?.elim 0 fun c ↦ min c.threshold 0

/-- The sum of all negative thresholds. -/
def Spec.deficit (s : Spec) : Int := (s.modifiers.toList.map Modifier.deficit).sum

/-- The specification that the text of another is read as: its negative thresholds move the total,
and a success condition that assigns is the default. -/
def Spec.misread (s : Spec) : Spec :=
  { s.canonical with
    modifiers := { s.canonical.modifiers with
      adjust? := s.modifiers.adjust?.map fun a ↦ a + s.deficit
      success? := s.modifiers.success?.map Condition.misread } }

private theorem Modifier.deficit_nonpos (m : Modifier) :
    m.deficit ≤ 0 ∧ (m.deficit = 0 ↔ ∀ c ∈ m.condition?, 0 ≤ c.threshold) := by
  unfold deficit
  cases m.condition? with
  | none => simp
  | some c =>
    simp only [Option.elim_some, Option.mem_some_iff, forall_eq']
    omega

/-- No threshold is further below zero than all together. -/
private theorem Spec.deficit_le (s : Spec) {m : Modifier} (hm : m ∈ s.modifiers.toList) :
    s.deficit ≤ m.deficit := by
  obtain ⟨before, after, split⟩ := List.append_of_mem hm
  have nonpos (ms : List Modifier) : (ms.map Modifier.deficit).sum ≤ 0 := by
    refine (List.sum_le_card_nsmul _ 0 ?_).trans_eq (nsmul_zero _)
    rw [List.forall_mem_map]
    exact fun m _ ↦ m.deficit_nonpos.1
  have left := nonpos before
  have right := nonpos after
  rw [deficit, split, List.map_append, List.map_cons, List.sum_append, List.sum_cons]
  omega

/-- A threshold is bounded if the total of the adjustments is, with all negative thresholds. -/
private theorem Spec.Bounded.natAbs_threshold_le {s : Spec} (bounded : s.Bounded)
    (small : (s.modifiers.adjustment + s.deficit).natAbs ≤ maxLiteral) {m : Modifier}
    (hm : m ∈ s.modifiers.toList) {c : Condition} (hc : c ∈ m.condition?) :
    c.threshold.natAbs ≤ maxLiteral := by
  obtain ⟨a, ha⟩ := bounded.exists_adjust
  have adjustment : s.modifiers.adjustment.natAbs ≤ maxLiteral := by
    rw [Modifiers.adjustment, ha]
    exact bounded.adjust ha
  have least : s.deficit ≤ min c.threshold 0 := by
    have le := s.deficit_le hm
    rwa [Modifier.deficit, Option.mem_def.mp hc] at le
  have bound : maxLiteral = 1000000 := rfl
  rcases Face.listable_iff.mp ((bounded.of_mem hm).condition hc) with bounded | least <;> omega

/-- A condition without its number stands for itself where its threshold is the default. -/
private theorem Condition.eq_of_default {c : Condition} {maxFace : Int}
    (h : c.threshold = maxFace) :
    (⟨(word c.comparison.kind).kind.comparison?.getD .equal, maxFace⟩ : Condition) = c := by
  obtain ⟨comparison, threshold⟩ := c
  obtain rfl : threshold = maxFace := h
  cases comparison <;> rfl

/-- A condition stands for itself with the number that is read where a negative one is the
default. -/
private theorem Condition.eq_of_amount? {c : Condition} {maxFace : Int}
    (h : c.threshold < 0 → c.threshold = maxFace) :
    (⟨(word c.comparison.kind).kind.comparison?.getD .equal,
      c.amount?.elim maxFace fun n ↦ n.number⟩ : Condition) = c := by
  unfold amount?
  split
  · next negative => exact eq_of_default (h negative)
  · next nonneg => exact c.eq_of_evaluator (Int.not_lt.mp nonneg)

/-- A method that is read for a modifier stands for it. -/
private theorem Modifier.modifier?_of_bare? {m : Modifier} {i : Item} {maxFace : Int}
    (hm : m.bare? = some i) (bounded : m.Bounded)
    (h : ∀ c ∈ m.condition?, c.threshold < 0 → c.threshold = maxFace ∧ m.kind ∈ highKinds) :
    i.modifier? maxFace = some m := by
  rcases bare?_cases hm with ⟨method, nonneg⟩ | ⟨k, _, c, hc, negative, method, rfl⟩
  · exact m.modifier?_of_method? maxFace method bounded nonneg
  · obtain ⟨same, high⟩ := h c hc negative
    have condition := Condition.eq_of_default same
    cases m with
    | explode e =>
      obtain ⟨_, compound, penetrate⟩ := e
      obtain rfl := Option.some.inj hc
      obtain rfl : Explosion.kind _ = k :=
        congrArg (Token.kind ∘ Item.letters) (Option.some.inj method)
      cases compound <;> cases penetrate <;>
        exact congrArg (fun c ↦ some (Modifier.explode ⟨c, _, _⟩)) condition
    | naturalSuccess c' =>
      obtain rfl := Option.some.inj hc
      obtain rfl : TokenKind.naturalSuccess = k :=
        congrArg (Token.kind ∘ Item.letters) (Option.some.inj method)
      exact congrArg (fun c ↦ some (Modifier.naturalSuccess c)) condition
    | success c' => contradiction
    | boost | adjust | keep | drop => contradiction
    | reroll | fail | naturalFail | totalCheck => simp [kind, highKinds] at high

namespace Spec

variable {s : Spec} (bounded : s.Bounded) (defaulted : s.Defaulted)

include bounded defaulted

/-- The last method of a kind is that of the modifier of this kind. -/
private theorem last?_misreading (k : ModifierKind) :
    s.misreading.last? (s.faces.max?.getD 0) k =
      (s.modifiers.get? k).filter fun m ↦ m.method?.isSome := by
  apply s.modifiers.last?_of_methods (f := Modifier.bare?) rfl
  · intro m hm
    rw [Modifier.bare?, hm, Option.map_none]
  · intro m hm hi
    obtain ⟨i, hi⟩ := Option.isSome_iff_exists.mp hi
    have item : m.bare? = some _ := congrArg (Option.map _) hi
    exact ⟨_, item, m.modifier?_of_bare? item (bounded.of_mem hm) (defaulted m hm)⟩

/-- The reading counts successes by the condition that is read. -/
private theorem meaning?_misreading_success {c : Condition} (hc : s.modifiers.success? = some c) :
    s.misreading.meaning? (s.faces.max?.getD 0) .success = some (.success c.misread) := by
  have mem : .success c ∈ s.modifiers.toList :=
    Modifiers.mem_toList_iff.mpr (congrArg (Option.map Modifier.success) hc)
  have default (negative : c.threshold < 0) := (defaulted _ mem c rfl negative).1
  have last : s.misreading.last? (s.faces.max?.getD 0) .success = none := by
    rw [last?_misreading bounded defaulted, Modifiers.get?, hc]
    rfl
  rw [Reading.meaning?, last, Option.or_none, Reading.evaluated?, misreading, hc, Condition.misread]
  cases assigns : c.assigns with
  | true =>
    have negative := (Condition.assigns_iff.mp assigns).1
    simp [Option.filter, assigns, default negative]
  | false =>
    simp only [Option.filter, assigns]
    exact congrArg (fun c ↦ some (Modifier.success c)) (Condition.eq_of_amount? default)

end Spec

/-- A sign that is read apart moves the total by the threshold. -/
private theorem Condition.shift_of_sign? {c : Condition} {o : Operation} (h : c.sign? = some o) :
    o.shift = c.threshold ∧ c.threshold < 0 := by
  have minus : TokenKind.minus ∈ negatives := by decide
  unfold sign? at h
  split at h
  · next apart =>
    simp only [Bool.and_eq_true, decide_eq_true_eq] at apart
    obtain rfl := Option.some.inj h
    rw [Operation.shift, kind_word, if_pos minus, number_numeral]
    omega
  · contradiction

/-- The threshold of a modifier that is read as an assigned sign. -/
private def Modifier.assigned (m : Modifier) : Int :=
  (m.condition?.filter Condition.assigns).elim 0 Condition.threshold

/-- A negative threshold is read as an assigned sign or as a sign apart. -/
private theorem Modifier.deficit_eq (m : Modifier) :
    m.deficit = m.assigned + m.sign?.elim 0 Operation.shift := by
  unfold deficit assigned sign?
  cases m.condition? with
  | none => rfl
  | some c =>
    cases hs : c.sign? with
    | some o =>
      obtain ⟨shift, negative⟩ := Condition.shift_of_sign? hs
      have plain : c.assigns = false := by
        cases assigns : c.assigns with
        | true => simp [Condition.sign?, assigns] at hs
        | false => rfl
      simp [Option.filter, plain, hs, shift]
      omega
    | none =>
      by_cases negative : c.threshold < 0
      · have assigns : c.assigns = true := by
          cases assigns : c.assigns with
          | true => rfl
          | false => simp [Condition.sign?, assigns, negative] at hs
        simp [Option.filter, assigns, hs]
        omega
      · have plain : c.assigns = false := by simp [Condition.assigns, negative]
        simp [Option.filter, plain, hs]
        omega

private theorem sum_map_filter {α : Type} {p : α → Bool} {f : α → Int} {xs : List α}
    (h : ∀ x ∈ xs, p x = false → f x = 0) : ((xs.filter p).map f).sum = (xs.map f).sum := by
  induction xs with
  | nil => rfl
  | cons x xs ih =>
    rw [List.forall_mem_cons] at h
    cases hp : p x with
    | true => simp [hp, ih h.2]
    | false => simp [hp, ih h.2, h.1 hp]

private theorem forall_mem_scanl_of_nonpos {xs : List Int} (h : ∀ x ∈ xs, x ≤ 0) (a : Int) :
    ∀ s ∈ xs.scanl (· + ·) a, a + xs.sum ≤ s ∧ s ≤ a := by
  induction xs generalizing a with
  | nil => simp
  | cons x xs ih =>
    rw [List.forall_mem_cons] at h
    rw [List.scanl_cons, List.forall_mem_cons, List.sum_cons]
    have rest := ih h.2 (a + x)
    have first := rest _ (Expression.init_mem_scanl (a + x) xs)
    constructor
    · omega
    · intro s hs
      have bounds := rest s hs
      omega

namespace Spec

variable {s : Spec} (legible : s.Legible)

include legible

private theorem sum_assigned : (s.modifiers.toList.map Modifier.assigned).sum =
    (s.modifiers.success?.filter Condition.assigns).elim 0 Condition.threshold := by
  rw [← sum_map_filter (p := fun m ↦ m.kind = .success), Modifiers.filter_toList, Modifiers.get?]
  · cases s.modifiers.success? with
    | none => rfl
    | some c => exact Int.add_zero _
  · intro m hm other
    cases hc : m.condition?.filter Condition.assigns with
    | none => rw [Modifier.assigned, hc, Option.elim_none]
    | some c =>
      obtain ⟨condition, assigns⟩ := Option.filter_eq_some_iff.mp hc
      obtain rfl := legible.eq_success hm condition assigns
      simp [Modifier.kind] at other

private theorem sum_signs :
    (s.modifiers.toList.map fun m ↦ m.sign?.elim 0 Operation.shift).sum =
      s.misreading.sign?.elim 0 Operation.shift := by
  rw [misreading]
  obtain nil | ⟨init, l, same⟩ := List.eq_nil_or_concat s.modifiers.toList
  · rw [nil]
    rfl
  · rw [List.concat_eq_append] at same
    have front : (init.map fun m ↦ m.sign?.elim 0 Operation.shift) = init.map fun _ ↦ 0 := by
      apply List.map_congr_left
      intro m hm
      rw [legible.sign?_eq_none same (List.cons_ne_nil l []) hm, Option.elim_none]
    rw [same, List.map_append, front]
    simp

/-- The reading moves the total by the adjustment and then by negative thresholds only. -/
private theorem exists_shifts (bounded : s.Bounded) (defaulted : s.Defaulted) : ∃ later,
    s.misreading.shifts = (s.modifiers.adjust?.filter fun a ↦ a ≠ 0).toList ++ later ∧
      (∀ x ∈ later, x ≤ 0) ∧ later.sum = s.deficit := by
  have methods : ∀ x ∈ s.misreading.methods.map Item.shift, x = 0 := by
    intro x hx
    obtain ⟨i, hi, rfl⟩ := List.mem_map.mp hx
    obtain ⟨m, hm, item⟩ := List.mem_filterMap.mp hi
    have modifier := m.modifier?_of_bare? item (bounded.of_mem hm) (defaulted m hm)
    rw [Item.shift, if_neg (Item.kind_of_modifier? modifier).2]
  have assigned : s.misreading.assigned.map Operation.shift =
      (s.modifiers.adjust?.filter fun a ↦ a ≠ 0).toList ++
        (s.modifiers.success?.filter Condition.assigns).toList.map Condition.threshold := by
    rw [misreading, List.map_append, s.map_shift_assigned, List.map_map]
    exact congrArg _ (List.map_congr_left fun c _ ↦ shift_assignment c.threshold)
  have split : s.deficit = (s.modifiers.success?.filter Condition.assigns).elim 0
      Condition.threshold + s.misreading.sign?.elim 0 Operation.shift := by
    rw [← sum_assigned legible, ← sum_signs legible, ← List.sum_map_add]
    exact congrArg List.sum (List.map_congr_left fun m _ ↦ m.deficit_eq)
  refine ⟨(s.modifiers.success?.filter Condition.assigns).toList.map Condition.threshold ++
    (s.misreading.methods.map Item.shift ++ s.misreading.sign?.toList.map Operation.shift),
    ?_, ?_, ?_⟩
  · rw [Reading.shifts, assigned]
    simp only [List.append_assoc]
  · simp only [List.forall_mem_append]
    refine ⟨?_, fun x hx ↦ (methods x hx).le, ?_⟩
    · intro x hx
      obtain ⟨c, hc, rfl⟩ := List.mem_map.mp hx
      have assigns := (Option.filter_eq_some_iff.mp (Option.mem_toList.mp hc)).2
      exact (Condition.assigns_iff.mp assigns).1.le
    · intro x hx
      obtain ⟨o, ho, rfl⟩ := List.mem_map.mp hx
      obtain ⟨m, _, sign⟩ := Option.bind_eq_some_iff.mp (Option.mem_toList.mp ho)
      obtain ⟨c, _, apart⟩ := Option.bind_eq_some_iff.mp sign
      obtain ⟨shift, negative⟩ := Condition.shift_of_sign? apart
      omega
  · have sum {α : Type} (o? : Option α) (f : α → Int) : (o?.toList.map f).sum = o?.elim 0 f := by
      cases o? with
      | none => rfl
      | some o => exact Int.add_zero _
    rw [List.sum_append, List.sum_append, List.sum_eq_zero methods, sum, sum, split]
    omega

/-- The running sums of the reading are within the limits if the total of them is. -/
private theorem sums_misreading_iff (bounded : s.Bounded) (defaulted : s.Defaulted) :
    s.misreading.shifts.sum = s.modifiers.adjustment + s.deficit ∧
      ((∀ x ∈ s.misreading.shifts.scanl (· + ·) 0, x.natAbs ≤ maxLiteral) ↔
        (s.modifiers.adjustment + s.deficit).natAbs ≤ maxLiteral) := by
  obtain ⟨later, shifts, nonpos, deficit⟩ := exists_shifts legible bounded defaulted
  have sum : s.misreading.shifts.sum = s.modifiers.adjustment + s.deficit := by
    rw [shifts, List.sum_append, deficit, Modifiers.adjustment]
    cases s.modifiers.adjust? with
    | none => rfl
    | some a => by_cases ha : a = 0 <;> simp [Option.filter, ha]
  refine ⟨sum, fun sums ↦ ?_, fun small ↦ ?_⟩
  · have total := sums _ (sum_mem_scanl 0 s.misreading.shifts)
    rwa [Int.zero_add, sum] at total
  · have between (x : Int)
        (hx : s.modifiers.adjustment + later.sum ≤ x ∧ x ≤ s.modifiers.adjustment)
        (first : s.modifiers.adjustment.natAbs ≤ maxLiteral) : x.natAbs ≤ maxLiteral := by
      rw [deficit] at hx
      omega
    have tail := forall_mem_scanl_of_nonpos nonpos s.modifiers.adjustment
    rw [shifts]
    unfold Modifiers.adjustment at *
    cases ha : s.modifiers.adjust? with
    | none =>
      rw [ha] at tail between
      exact fun x hx ↦ between x (tail x hx) (Nat.zero_le _)
    | some a =>
      have first := bounded.adjust ha
      rw [ha] at tail between
      by_cases zero : a = 0
      · subst zero
        exact fun x hx ↦ between x (tail x (by simpa [Option.filter] using hx)) first
      · simp only [Option.filter, decide_eq_true zero, if_true, Option.toList_some,
          List.singleton_append, List.scanl_cons, List.forall_mem_cons, Int.zero_add]
        exact ⟨Nat.zero_le _, fun x hx ↦ between x (tail x hx) first⟩

/-- The numbers of the reading are allowed if the total of the adjustments is. -/
private theorem allowed_misreading_iff (bounded : s.Bounded) (defaulted : s.Defaulted) :
    s.misreading.Allowed ↔ (s.modifiers.adjustment + s.deficit).natAbs ≤ maxLiteral := by
  have sums := (sums_misreading_iff legible bounded defaulted).2
  refine ⟨fun allowed ↦ sums.mp allowed.sums, fun small ↦ ?_⟩
  constructor
  case sides =>
    exact (exists_sides_iff s.faces.kind_sides).mp ⟨_, FaceSet.sides_sides bounded.faces⟩
  case count =>
    change 1 ≤ (numeral s.count).number ∧ (numeral s.count).number ≤ maxDice
    rw [number_numeral]
    exact bounded.count
  case boost => exact allowed_boost bounded
  case assigned =>
    intro o ho
    rcases List.mem_append.mp ho with ho | ho
    · exact allowed_assigned bounded o ho
    · obtain ⟨c, hc, rfl⟩ := List.mem_map.mp ho
      have success := Option.eq_some_of_filter_eq_some (Option.mem_toList.mp hc)
      have mem : .success c ∈ s.modifiers.toList :=
        Modifiers.mem_toList_iff.mpr (congrArg (Option.map Modifier.success) success)
      rw [assignment, number_numeral]
      exact bounded.natAbs_threshold_le small mem rfl
  case evaluator =>
    intro e he n hn
    obtain ⟨c, hc, rfl⟩ := Option.map_eq_some_iff.mp he
    have written : n ∈ c.amount? := hn
    unfold Condition.amount? at written
    split at written
    · contradiction
    · obtain rfl := Option.some.inj written
      rw [number_numeral]
      exact (bounded.success (Option.eq_some_of_filter_eq_some hc)).toNat_le
  case methods =>
    intro i hi
    obtain ⟨m, hm, item⟩ := List.mem_filterMap.mp hi
    rcases Modifier.bare?_cases item with ⟨method, _⟩ | ⟨k, hk, c, _, _, _, rfl⟩
    · exact m.allowed_of_method? method (bounded.of_mem hm)
    · have kinds : k ∉ pools ∧ k ≠ .boost := by
        revert hk
        cases k <;> decide
      exact (if_neg kinds.1).mpr ⟨by rintro _ ⟨⟩, fun boost ↦ absurd boost kinds.2⟩
  case check => rintro _ ⟨⟩
  case sign =>
    intro o ho
    obtain ⟨m, last, sign⟩ := Option.bind_eq_some_iff.mp ho
    obtain ⟨c, hc, apart⟩ := Option.bind_eq_some_iff.mp sign
    unfold Condition.sign? at apart
    split at apart
    · obtain rfl := Option.some.inj apart
      rw [number_numeral]
      exact bounded.natAbs_threshold_le small (List.mem_of_getLast? last) hc
    · contradiction
  case sums => exact sums.mpr small

/-- The reading stands for the specification that the text is read as. -/
private theorem spec_misreading (bounded : s.Bounded) (defaulted : s.Defaulted) :
    s.misreading.spec s.faces = s.misread := by
  have sum := (sums_misreading_iff legible bounded defaulted).1
  have modifiers : (s.misreading.spec s.faces).modifiers = s.misread.modifiers := by
    cases hn : s.faces.isNumeric with
    | false =>
      obtain ⟨a, only⟩ := bounded.labelled hn
      rw [Reading.modifiers_of_labels s.wellFormed_misreading hn, sum, misread, canonical, only]
      rfl
    | true =>
      obtain ⟨_, adjust, success⟩ := bounded.numeric hn
      have methods := wellFormed_of_fits s.wellFormed_misreading.methods
      have other (k : ModifierKind) :=
        meaning?_of_last? (r := s.misreading) (k := k) bounded hn rfl rfl
          (last?_misreading bounded defaulted)
      apply modifiers_ext
      intro k
      refine (Reading.get?_finish methods hn k).trans ?_
      cases k with
      | adjust =>
        obtain ⟨a, ha⟩ := Option.isSome_iff_exists.mp adjust
        rw [Reading.meaning?, sum, misread, Modifiers.adjustment, Modifiers.get?, ha]
        rfl
      | success =>
        obtain ⟨c, hc⟩ := Option.isSome_iff_exists.mp success
        rw [meaning?_misreading_success bounded defaulted hc, misread, Modifiers.get?, hc]
        rfl
      | _ => exact other _ (by decide) (by decide)
  have count : (numeral s.count).number = s.count := number_numeral s.count
  obtain ⟨n, faces, m, substitutions⟩ := s
  obtain rfl : substitutions = [] := bounded.substitutions
  rw [misread, canonical, Spec.mk.injEq]
  exact ⟨count, rfl, modifiers, rfl⟩

end Spec

namespace Spec

/-- Negative thresholds do not cancel out. -/
theorem deficit_eq_zero_iff (s : Spec) : s.deficit = 0 ↔ s.Unsigned := by
  have sum (ms : List Modifier) : (ms.map Modifier.deficit).sum ≤ 0 ∧
      ((ms.map Modifier.deficit).sum = 0 ↔
        ∀ m ∈ ms, ∀ c ∈ m.condition?, 0 ≤ c.threshold) := by
    induction ms with
    | nil => simp
    | cons m ms ih =>
      obtain ⟨nonpos, zero⟩ := m.deficit_nonpos
      rw [List.map_cons, List.sum_cons, List.forall_mem_cons, ← zero, ← ih.2]
      omega
  exact (sum s.modifiers.toList).2

/-- The negative thresholds are added to the adjustment. -/
private theorem adjustment_misread {s : Spec} (bounded : s.Bounded) :
    s.misread.modifiers.adjustment = s.modifiers.adjustment + s.deficit := by
  obtain ⟨a, ha⟩ := bounded.exists_adjust
  rw [misread, Modifiers.adjustment, Modifiers.adjustment, ha]
  rfl

/-- The text of an expression is an expression exactly if it is legible and its negative thresholds
do not move the total out of bounds, and then they are read as changes of the total. It is read as
the same expression, but for a boost without effect, exactly if no threshold is negative. -/
theorem parse_text_iff {text : String} {spec : Spec} (h : Expression.parse text = .ok spec) :
    (∀ spec', Expression.parse spec.text = .ok spec' ↔
      spec.Legible ∧ spec.misread.modifiers.adjustment.natAbs ≤ maxLiteral ∧
        spec' = spec.misread) ∧
    (Expression.parse spec.text = .ok spec.canonical ↔ spec.Unsigned) := by
  have bounded := bounded_of_parse h
  have defaulted := defaulted_of_parse h
  have adjustment := adjustment_misread bounded
  have read (spec' : Spec) : Expression.parse spec.text = .ok spec' ↔
      spec.Legible ∧ spec.misread.modifiers.adjustment.natAbs ≤ maxLiteral ∧
        spec' = spec.misread := by
    rw [← joined_signed bounded, Expression.parse_joined 0 (pieces_signed bounded), adjustment]
    by_cases legible : spec.Legible
    · have greedy : GreedyReading spec.signed spec.misreading :=
        ⟨spec.wellFormed_misreading, spec.greedy_misreading, tokens_misreading legible⟩
      have sides : Expression.sides spec.misreading.sides = .ok spec.faces :=
        FaceSet.sides_sides bounded.faces
      rw [parseTokens_eq_ok_iff greedy, sides, allowed_misreading_iff legible bounded defaulted]
      simp [legible, spec_misreading legible bounded defaulted]
    · constructor
      · intro tokens
        exact absurd (legible_of_sentence (sentence_of_parseTokens tokens)) legible
      · exact fun read ↦ absurd read.1 legible
  refine ⟨read, fun same ↦ ?_, fun unsigned ↦ (parse_text h unsigned).1⟩
  -- with a negative threshold the total of what is read is smaller
  have canonical := congrArg (fun s ↦ s.modifiers.adjustment) ((read _).mp same).2.2
  have unmoved : spec.canonical.modifiers.adjustment = spec.modifiers.adjustment := rfl
  rw [← deficit_eq_zero_iff]
  omega

private def negativeDie : Spec where
  count := 1
  faces := .list [.number (-1)] (by decide)
  modifiers :=
    { boost? := some .identity, adjust? := some 0, success? := some ⟨.greaterEqual, -1⟩ }

/-- A die with the only face minus one is read back with a penalty of one. -/
theorem parse_text_iff_negativeDie :
    Expression.parse "1d{-1}" = .ok negativeDie ∧ negativeDie.text = "1d{-1}>=-1" ∧
      Expression.parse "1d{-1}>=-1" = .ok negativeDie.misread ∧
      negativeDie.misread.text = "1d{-1}=-1>=-1" ∧
      Expression.parse negativeDie.text ≠ .ok negativeDie.canonical := by
  have h : Expression.parse "1d{-1}" = .ok negativeDie := by decide +kernel
  have text : negativeDie.text = "1d{-1}>=-1" := by decide +kernel
  have signed : ¬negativeDie.Unsigned := by
    intro unsigned
    have nonneg := unsigned (.success ⟨.greaterEqual, -1⟩) (by decide) ⟨.greaterEqual, -1⟩ rfl
    contradiction
  refine ⟨h, text, by decide +kernel, by decide +kernel, ?_⟩
  exact fun same ↦ signed ((parse_text_iff h).2.mp same)

/-- It is not so that every text with negative thresholds is read as the same expression. -/
theorem not_forall_parse_text : ¬∀ (text : String) (spec : Spec),
    Expression.parse text = .ok spec → spec.isNumeric = true →
      (∃ m ∈ spec.modifiers.toList, ∃ c ∈ m.condition?, c.threshold < 0) →
      Expression.parse spec.text = .ok spec.canonical := by
  intro back
  have read : Expression.parse "1d{-1}" = .ok negativeDie := by decide +kernel
  have negative : ∃ m ∈ negativeDie.modifiers.toList, ∃ c ∈ m.condition?, c.threshold < 0 :=
    ⟨.success ⟨.greaterEqual, -1⟩, by decide, ⟨.greaterEqual, -1⟩, rfl, by decide⟩
  have moved : Expression.parse negativeDie.text ≠ .ok negativeDie.canonical := by decide +kernel
  exact moved (back "1d{-1}" negativeDie read (by decide) negative)

end Spec

end DicePool
