import DicePool.Proofs.Expression.Parse
import Mathlib.Algebra.BigOperators.Group.List.Lemmas

/-!
# Methods in another order

A reading stands for the same modifiers wherever its tokens stand in the text. Methods of different
kinds set different modifiers and adjustments are summed up, so their order does not matter as long
as the text is read with the same parts.
-/

namespace DicePool.Grammar

open Expression

/-- A token as it is anywhere in a text. -/
def placeless (t : Token) : Token := { t with span := ⟨0, 0⟩ }

/-- An operation as it is anywhere in a text. -/
def Operation.placeless (o : Operation) : Operation :=
  ⟨Grammar.placeless o.operator, Grammar.placeless o.amount⟩

/-- An evaluator as it is anywhere in a text. -/
def Evaluator.placeless (e : Evaluator) : Evaluator :=
  ⟨Grammar.placeless e.operator, e.amount?.map Grammar.placeless⟩

/-- A method as it is anywhere in a text. -/
def Item.placeless (i : Item) : Item :=
  ⟨Grammar.placeless i.letters, i.operator?.map Grammar.placeless,
    i.amount?.map Grammar.placeless⟩

private theorem Item.modifier?_placeless (maxFace : Int) (i : Item) :
    i.placeless.modifier? maxFace = i.modifier? maxFace := by
  obtain ⟨letters, operator?, amount?⟩ := i
  cases operator? <;> cases amount? <;> rfl

private theorem Item.shift_placeless (i : Item) : i.placeless.shift = i.shift := by
  obtain ⟨letters, operator?, amount?⟩ := i
  cases operator? <;> cases amount? <;> rfl

/-- The kind of modifier that the letters of a method set. -/
def kindOf : TokenKind → Option ModifierKind
  | .boost => some .boost
  | .adjust => some .adjust
  | .keep | .keepHighest | .keepLowest => some .keep
  | .dice | .dropLowest | .dropHighest => some .drop
  | .explode | .compound | .penetrate | .compoundPenetrate => some .explode
  | .reroll | .rerollOnce => some .reroll
  | .success => some .success
  | .fail => some .fail
  | .naturalSuccess => some .naturalSuccess
  | .naturalFail => some .naturalFail
  | .totalCheck => some .totalCheck
  | _ => none

/-- The modifier of a method is of the kind of its letters, and no method that adjusts has one. -/
theorem Item.kind_of_modifier? {maxFace : Int} {i : Item} {m : Modifier}
    (h : i.modifier? maxFace = some m) :
    kindOf i.letters.kind = some m.kind ∧ i.letters.kind ≠ .adjust := by
  unfold Item.modifier? at h
  split at h <;> cases h <;> simp_all [kindOf, Modifier.kind]

/-- Whether a second reading has the parts of the first with its methods in another order, where no
two methods but those that adjust are of the same kind. -/
structure Reading.Reordered (r r' : Reading) : Prop where
  count : placeless r.count = placeless r'.count
  sides : placeless r.sides = placeless r'.sides
  boost : r.boost?.map Operation.placeless = r'.boost?.map Operation.placeless
  assigned : r.assigned.map Operation.placeless = r'.assigned.map Operation.placeless
  evaluator : r.evaluator?.map Evaluator.placeless = r'.evaluator?.map Evaluator.placeless
  methods : (r.methods.map Item.placeless).Perm (r'.methods.map Item.placeless)
  check : r.check?.map Operation.placeless = r'.check?.map Operation.placeless
  sign : r.sign?.map Operation.placeless = r'.sign?.map Operation.placeless
  kinds : r.methods.Pairwise fun i j ↦
    kindOf i.letters.kind = kindOf j.letters.kind → i.letters.kind = .adjust

private theorem length_filter_le_one {k : ModifierKind} {ms : List Modifier}
    (h : ms.Pairwise fun m m' ↦ m.kind ≠ m'.kind) :
    (ms.filter fun m ↦ m.kind = k).length ≤ 1 := by
  have kind : ∀ m ∈ ms.filter fun m ↦ m.kind = k, m.kind = k := fun m hm ↦ by
    simpa using (List.mem_filter.mp hm).2
  have pairwise := h.filter fun m ↦ m.kind = k
  generalize (ms.filter fun m ↦ m.kind = k) = found at kind pairwise
  match found with
  | [] => exact Nat.zero_le 1
  | [m] => exact Nat.le_refl 1
  | m :: m' :: rest =>
    have first := kind m List.mem_cons_self
    have second := kind m' (List.mem_cons_of_mem _ List.mem_cons_self)
    exact absurd (first.trans second.symm) (List.rel_of_pairwise_cons pairwise List.mem_cons_self)

private theorem eq_of_perm_of_length_le_one {α : Type} {xs ys : List α} (h : xs.Perm ys)
    (hx : xs.length ≤ 1) : xs = ys := by
  match xs with
  | [] => exact h.nil_eq
  | [x] => exact List.singleton_perm.mp h
  | x :: x' :: rest =>
    simp at hx

namespace Reading.Reordered

variable {r r' : Reading} (h : r.Reordered r')

include h

private theorem sum_shifts : r.shifts.sum = r'.shifts.sum := by
  have assigned : r.assigned.map Operation.shift = r'.assigned.map Operation.shift := by
    have same := congrArg (List.map Operation.shift) h.assigned
    rwa [List.map_map, List.map_map] at same
  have sign : r.sign?.map Operation.shift = r'.sign?.map Operation.shift := by
    have same := congrArg (Option.map Operation.shift) h.sign
    rwa [Option.map_map, Option.map_map] at same
  have methods : (r.methods.map Item.shift).Perm (r'.methods.map Item.shift) := by
    have perm := h.methods.map Item.shift
    rwa [List.map_map, List.map_map, funext (f := Item.shift ∘ _) Item.shift_placeless] at perm
  have toList (o? : Option Operation) :
      o?.toList.map Operation.shift = (o?.map Operation.shift).toList := by
    cases o? <;> rfl
  rw [shifts, shifts, List.sum_append, List.sum_append, List.sum_append, List.sum_append, assigned,
    methods.sum_eq, toList, toList, sign]

private theorem last?_eq (maxFace : Int) (k : ModifierKind) :
    r.last? maxFace k = r'.last? maxFace k := by
  have perm := h.methods.filterMap (Item.modifier? maxFace)
  rw [List.filterMap_map, List.filterMap_map,
    funext (f := Item.modifier? maxFace ∘ _) (Item.modifier?_placeless maxFace)] at perm
  have distinct : (r.methods.filterMap (Item.modifier? maxFace)).Pairwise
      fun m m' ↦ m.kind ≠ m'.kind := by
    apply h.kinds.filterMap
    intro i j hij m hm m' hm' same
    obtain ⟨first, adjusts⟩ := Item.kind_of_modifier? hm
    obtain ⟨second, _⟩ := Item.kind_of_modifier? hm'
    exact adjusts (hij (by rw [first, second, same]))
  have found := perm.filter fun m ↦ m.kind = k
  rw [last?, last?, eq_of_perm_of_length_le_one found (length_filter_le_one distinct)]

/-- A reordered reading stands for the same modifiers. -/
theorem meaning?_eq (maxFace : Int) : r.meaning? maxFace = r'.meaning? maxFace := by
  have boost : r.headBoost? = r'.headBoost? := by
    have same := congrArg (Option.map fun o : Operation ↦
      Modifier.boost ⟨o.operator.kind.arithmetic?.getD .add, o.amount.number⟩) h.boost
    rwa [Option.map_map, Option.map_map] at same
  have check : r.trailingCheck? = r'.trailingCheck? := by
    have same := congrArg (Option.map fun o : Operation ↦
      Modifier.totalCheck ⟨o.operator.kind.comparison?.getD .equal, o.amount.number⟩) h.check
    rwa [Option.map_map, Option.map_map] at same
  have evaluator : r.evaluated? maxFace = r'.evaluated? maxFace := by
    have placed (e : Evaluator) : (e.placeless.amount?.elim maxFace fun n ↦ (n.number : Int)) =
        e.amount?.elim maxFace fun n ↦ n.number := by
      obtain ⟨operator, amount?⟩ := e
      cases amount? <;> rfl
    have same := congrArg (Option.map fun e : Evaluator ↦
      Modifier.success ⟨e.operator.kind.comparison?.getD .equal,
        e.amount?.elim maxFace fun n ↦ n.number⟩) h.evaluator
    rw [Option.map_map, Option.map_map] at same
    simp only [Function.comp_def, placed] at same
    exact same
  funext k
  cases k <;> simp only [meaning?, h.sum_shifts, h.last?_eq maxFace, boost, check, evaluator]

end Reading.Reordered

private theorem sides_placeless {t : Token} {faces : FaceSet} :
    sides (placeless t) = .ok faces ↔ sides t = .ok faces := by
  have kind : (placeless t).kind = t.kind := rfl
  have text : (placeless t).text = t.text := rfl
  have number : (placeless t).number = t.number := rfl
  unfold sides
  rw [kind, text, number]
  split
  · split
    · simp
    · cases FaceSet.ofSides? t.number <;> simp
  · split
    · cases FaceSet.ofText? t.text <;> simp
    · simp

/-- Modifiers are known by those of each kind. -/
theorem modifiers_ext {m m' : Modifiers} (h : ∀ k, m.get? k = m'.get? k) : m = m' := by
  have field {α : Type} {f : α → Modifier} (hf : Function.Injective f) {a b : Option α}
      (same : a.map f = b.map f) : a = b := Option.map_injective hf same
  obtain ⟨⟩ := m
  obtain ⟨⟩ := m'
  rw [Modifiers.mk.injEq]
  refine ⟨field ?_ (h .boost), field ?_ (h .adjust), field ?_ (h .success), field ?_ (h .keep),
    field ?_ (h .drop), field ?_ (h .explode), field ?_ (h .reroll), field ?_ (h .fail),
    field ?_ (h .naturalSuccess), field ?_ (h .naturalFail), field ?_ (h .totalCheck)⟩
  all_goals
    rintro _ _ ⟨⟩
    rfl

/-- An expression with numeric faces has the modifiers that its greedy reading stands for, and
another text whose greedy reading has the same methods in another order is the same expression. -/
theorem parse_meaning {text : String} {spec : Spec} (h : parse text = .ok spec)
    (hn : spec.isNumeric = true) :
    (∃ r, GreedyReading (Token.scan text.toList) r ∧
      ∀ k, spec.modifiers.get? k = r.meaning? (spec.faces.max?.getD 0) k) ∧
    ∀ r text' r' spec', GreedyReading (Token.scan text.toList) r →
      GreedyReading (Token.scan text'.toList) r' → r.Reordered r' → parse text' = .ok spec' →
        spec' = spec := by
  have meaning {text : String} {r : Reading} {faces : FaceSet}
      (hr : GreedyReading (Token.scan text.toList) r) (hf : faces.isNumeric = true)
      (k : ModifierKind) : (r.spec faces).modifiers.get? k = r.meaning? (faces.max?.getD 0) k :=
    Reading.get?_finish (wellFormed_of_fits hr.1.methods) hf k
  constructor
  · obtain ⟨r, hr⟩ := Reading.exists_greedyReading (sentence_of_parse h)
    obtain ⟨_, faces, _, rfl⟩ := (parse_eq_ok_iff hr).mp h
    exact ⟨r, hr, meaning hr hn⟩
  · intro r text' r' spec' hr hr' reordered h'
    obtain ⟨_, faces, hf, rfl⟩ := (parse_eq_ok_iff hr).mp h
    obtain ⟨_, faces', hf', rfl⟩ := (parse_eq_ok_iff hr').mp h'
    rw [← sides_placeless, reordered.sides, sides_placeless, hf', Except.ok.injEq] at hf
    subst hf
    have count : (placeless r'.count).number = (placeless r.count).number :=
      congrArg Token.number reordered.count.symm
    have numeric : faces'.isNumeric = true := hn
    have modifiers : (r'.spec faces').modifiers = (r.spec faces').modifiers := by
      apply modifiers_ext
      intro k
      rw [meaning hr' numeric, meaning hr numeric, reordered.meaning?_eq]
    rw [Spec.mk.injEq]
    exact ⟨count, rfl, modifiers, rfl⟩

private def character (kind : TokenKind) (place : Nat) (c : Char) : Token :=
  ⟨kind, ⟨place, place + 1⟩, [c]⟩

private def keepOne (place : Nat) : Item :=
  ⟨character .keep place 'k', none, some (character .integer (place + 1) '1')⟩

private def failTwo (place : Nat) : Item :=
  ⟨character .fail place 'f', some (character .equal (place + 1) '='),
    some (character .integer (place + 2) '2')⟩

private def twoDice (methods : List Item) : Reading where
  count := character .integer 0 '2'
  dice := character .dice 1 'd'
  sides := character .integer 2 '6'
  boost? := none
  assigned := []
  evaluator? := none
  methods := methods
  check? := none
  sign? := none

/-- Keeping the highest of two dice and counting failures at two is meant in either order. -/
theorem parse_meaning_keep_fail :
    ∃ spec, parse "2d6k1f=2" = .ok spec ∧ parse "2d6f=2k1" = .ok spec ∧
      ∃ r, GreedyReading (Token.scan "2d6k1f=2".toList) r ∧
        ∀ k, spec.modifiers.get? k = r.meaning? (spec.faces.max?.getD 0) k := by
  obtain ⟨spec, h, hn⟩ : ∃ spec, parse "2d6k1f=2" = .ok spec ∧ spec.isNumeric = true :=
    ⟨_, rfl, rfl⟩
  obtain ⟨spec', h'⟩ : ∃ spec', parse "2d6f=2k1" = .ok spec' := ⟨_, rfl⟩
  obtain ⟨meaning, reordered⟩ := parse_meaning h hn
  have same : spec' = spec := by
    apply reordered (twoDice [keepOne 3, failTwo 5]) _ (twoDice [failTwo 3, keepOne 6]) spec'
      (by decide) (by decide) _ h'
    exact ⟨rfl, rfl, rfl, rfl, rfl, List.Perm.swap _ _ [], rfl, rfl, by decide⟩
  exact ⟨spec, h, same ▸ h', meaning⟩

end DicePool.Grammar
