import DicePool.Proofs.Face
import DicePool.Proofs.Roll.Faithful
import DicePool.Proofs.Roll.Positions

/-!
# What a die settles on

A die is drawn until its reroll lets a value stand. The values of its draws say on which one it
settles; a row of dice is a row of draws. A die that does not settle has used up the budget.
-/

namespace DicePool

variable {σ : Type} [Roller σ]

namespace Roller

/-- A counted roller is, after some answers, the counted roller after them. -/
private theorem source_after (s : Counted σ) (asked : List Nat) :
    (after s asked).source = after s.source asked := by
  induction asked generalizing s with
  | nil => rfl
  | cons sides asked ih => exact ih (roll s sides).2

/-- A fair roller stays fair when it is counted. -/
theorem Fair.counted {s : Counted σ} (h : Fair s.source) : Fair s := by
  intro asked all sides pos
  have answers := h asked all sides pos
  rwa [← source_after] at answers

end Roller

/-- An answer within the faces brings up one of the numbers. -/
theorem FaceSet.value_mem {faces : FaceSet} {numbers : List Value}
    (h : faces.numbers? = some numbers) {answer : Nat} (least : 1 ≤ answer)
    (most : answer ≤ faces.size) : faces.value answer ∈ numbers := by
  obtain rfl := Option.some.inj (h.symm.trans (numbers?_of_isNumeric (isNumeric_of_numbers? h)))
  refine List.mem_map.mpr ⟨answer - 1, List.mem_range.mpr (by omega), ?_⟩
  rw [Nat.sub_add_cancel least]

/-- Whether a die that is drawn with the given values, one after the other, settles on a value: the
first one that does not meet the condition of a reroll, or the second one if it is drawn again only
once. -/
inductive Settles : Option Reroll → List Value → Value → Prop
  | drawn (v : Value) : Settles none [v] v
  | kept {r : Reroll} {v : Value} (unmet : r.condition.holds v = false) : Settles (some r) [v] v
  | once {r : Reroll} {v w : Value} (once : r.once = true) (met : r.condition.holds v = true) :
    Settles (some r) [v, w] w
  | again {r : Reroll} {v w : Value} {vs : List Value} (more : r.once = false)
    (met : r.condition.holds v = true) (rest : Settles (some r) vs w) : Settles (some r) (v :: vs) w

namespace Settles

variable {r : Reroll} {draws : List Value} {v : Value}

/-- A die settles on a value that was drawn. -/
theorem mem {r? : Option Reroll} (h : Settles r? draws v) : v ∈ draws := by
  induction h with
  | drawn v => exact List.mem_singleton_self v
  | kept => exact List.mem_singleton_self _
  | once => exact List.mem_cons_of_mem _ (List.mem_singleton_self _)
  | again _ _ _ ih => exact List.mem_cons_of_mem _ ih

/-- A die that is drawn again and again settles on a value that does not meet the condition. -/
theorem unmet (h : Settles (some r) draws v) (more : r.once = false) :
    r.condition.holds v = false := by
  generalize reroll : some r = r? at h
  induction h with
  | drawn => contradiction
  | kept unmet =>
    cases reroll
    exact unmet
  | once once =>
    cases reroll
    exact absurd more (by rw [once]; decide)
  | again _ _ _ ih => exact ih reroll

end Settles

namespace Rolling

variable {faces : FaceSet} {spec : Spec} {c c₁ c' : Context σ} {v : Value} {e : Error}

/-- A number that is drawn leaves the limits. -/
private theorem limits_of_drawValue (h : (drawValue faces).run c = (.ok v, c₁)) :
    c₁.limits = c.limits := by
  have keeps := (closed_keeps.drawValue faces c).1
  rwa [h] at keeps

/-- Many faces are drawn one after the other. -/
theorem drawMany_eq_ok {n : Nat} {fs : List Face}
    (h : (drawMany faces n).run c = (.ok fs, c')) :
    fs.length = n ∧ Repeats (draw faces) c fs c' := by
  induction n generalizing c fs with
  | zero =>
    cases h
    exact ⟨rfl, .nil _⟩
  | succ n ih =>
    obtain ⟨f, c₁, drawn, rest⟩ := run_bind_eq_ok_iff.mp h
    obtain ⟨fs, others, rfl⟩ := run_bind_pure_eq_ok_iff.mp rest
    obtain ⟨length, repeats⟩ := ih others
    exact ⟨congrArg Nat.succ length, .cons drawn repeats⟩

/-- Faces that are drawn from a fair roller are those of the die. -/
theorem face_of_draws {fs : List Face} (h : Repeats (draw faces) c fs c')
    (fair : Roller.Fair c.source) :
    ∀ f ∈ fs, ∃ answer, 1 ≤ answer ∧ answer ≤ faces.size ∧ f = faces.face answer := by
  refine (h.invariant (I := fun c ↦ Roller.Fair c.source) fair ?_).2
  intro c f c₁ fair run
  obtain ⟨_, rfl, next⟩ := draw_eq_ok run
  obtain ⟨least, most⟩ := fair [] nofun faces.size faces.size_pos
  rw [next]
  exact ⟨fair.next faces.size_pos, _, least, most, rfl⟩

namespace Repeats

variable {draws : List Value}

/-- Draws take one unit of the budget each. -/
theorem remaining (h : Repeats (drawValue faces) c draws c') :
    c.remaining = c'.remaining + draws.length := by
  induction h with
  | nil => rfl
  | cons run _ ih =>
    have first := (drawValue_eq_ok run).1
    rw [List.length_cons]
    omega

/-- The draws of a counted roller are counted. -/
theorem draws_eq {c c' : Context (Counted σ)} (h : Repeats (drawValue faces) c draws c') :
    c'.source.draws = c.source.draws + draws.length := by
  induction h with
  | nil => rfl
  | cons run _ ih =>
    have first := (drawValue_eq_ok run).2.2
    rw [ih, first, List.length_cons, Nat.add_comm _ 1, ← Nat.add_assoc]
    rfl

/-- A fair roller brings up faces of the die, and stays fair. -/
theorem fair (h : Repeats (drawValue faces) c draws c') (fair : Roller.Fair c.source) :
    Roller.Fair c'.source ∧
      ∀ v ∈ draws, ∃ answer, 1 ≤ answer ∧ answer ≤ faces.size ∧ v = faces.value answer := by
  apply h.invariant fair
  intro c v c₁ fair run
  obtain ⟨_, rfl, next⟩ := drawValue_eq_ok run
  obtain ⟨least, most⟩ := fair [] nofun faces.size faces.size_pos
  rw [next]
  exact ⟨fair.next faces.size_pos, _, least, most, rfl⟩

end Repeats

/-- A die that is drawn again and again settles by its draws. -/
private theorem drawUntilUnmet_eq_ok {r : Reroll} (more : r.once = false) {budget : Nat}
    (h : (drawUntilUnmet faces r.condition budget).run c = (.ok v, c'))
    (enough : c.remaining ≤ budget) :
    ∃ draws, Repeats (drawValue faces) c draws c' ∧ Settles (some r) draws v := by
  induction budget generalizing c with
  | zero =>
    have short := (drawValue_eq_ok h).1
    omega
  | succ budget ih =>
    unfold drawUntilUnmet at h
    obtain ⟨w, c₁, drawn, rest⟩ := run_bind_eq_ok_iff.mp h
    cases met : r.condition.holds w with
    | true =>
      rw [if_pos met] at rest
      have spent := (drawValue_eq_ok drawn).1
      obtain ⟨draws, drawns, settles⟩ := ih rest (by omega)
      exact ⟨w :: draws, .cons drawn drawns, .again more met settles⟩
    | false =>
      rw [met] at rest
      cases rest
      exact ⟨[v], .one drawn, .kept met⟩

/-- A die settles by its draws. -/
theorem settle_eq_ok (h : (settle spec).run c = (.ok v, c')) :
    ∃ draws, Repeats (drawValue spec.faces) c draws c' ∧
      Settles spec.modifiers.reroll? draws v := by
  unfold settle at h
  cases hr : spec.modifiers.reroll? with
  | none =>
    rw [hr] at h
    exact ⟨[v], .one h, .drawn v⟩
  | some r =>
    simp only [hr] at h
    cases once : r.once with
    | true =>
      rw [if_pos once] at h
      obtain ⟨w, c₁, drawn, rest⟩ := run_bind_eq_ok_iff.mp h
      cases met : r.condition.holds w with
      | true =>
        rw [if_pos met] at rest
        exact ⟨[w, v], .cons drawn (.one rest), .once once met⟩
      | false =>
        rw [met] at rest
        cases rest
        exact ⟨[v], .one drawn, .kept met⟩
    | false =>
      rw [once] at h
      exact drawUntilUnmet_eq_ok once h (Nat.le_refl _)

/-- Dice settle by their draws, one die after the other. -/
theorem exists_draws {vs : List Value} (h : Repeats (settle spec) c vs c') :
    ∃ rows, List.Forall₂ (Settles spec.modifiers.reroll?) rows vs ∧
      Repeats (drawValue spec.faces) c rows.flatten c' := by
  induction h with
  | nil c => exact ⟨[], .nil, .nil c⟩
  | cons run _ ih =>
    obtain ⟨draws, drawn, settles⟩ := settle_eq_ok run
    obtain ⟨rows, settle, rest⟩ := ih
    exact ⟨draws :: rows, .cons settles settle, drawn.append rest⟩

/-- Dice take at least one unit of the budget each. -/
theorem length_add_remaining_le {vs : List Value} (h : Repeats (settle spec) c vs c') :
    vs.length + c'.remaining ≤ c.remaining := by
  induction h with
  | nil c => exact Nat.le_of_eq (Nat.zero_add _)
  | cons run _ ih =>
    obtain ⟨draws, drawn, settles⟩ := settle_eq_ok run
    have spent := drawn.remaining
    have some := List.length_pos_of_mem settles.mem
    rw [List.length_cons]
    omega

/-- Dice of a fair roller settle on faces, and leave it fair. -/
theorem fair_of_dice {vs : List Value} (h : Repeats (settle spec) c vs c')
    (fair : Roller.Fair c.source) :
    Roller.Fair c'.source ∧ ∀ v ∈ vs, (∃ answer, 1 ≤ answer ∧ answer ≤ spec.faces.size ∧
      v = spec.faces.value answer) ∧ ∃ draws, Settles spec.modifiers.reroll? draws v := by
  apply h.invariant fair
  intro c v c₁ fair run
  obtain ⟨draws, drawn, settles⟩ := settle_eq_ok run
  obtain ⟨next, faces⟩ := drawn.fair fair
  exact ⟨next, faces v settles.mem, draws, settles⟩

/-- A number that is drawn again and again lacks budget if it is not drawn in the end. -/
private theorem drawUntilUnmet_eq_error {condition : Condition} {budget : Nat}
    (h : (drawUntilUnmet faces condition budget).run c = (.error e, c')) :
    e = .tooManyRolls c.limits.rolls ∧ c'.remaining = 0 := by
  induction budget generalizing c with
  | zero => exact drawValue_eq_error h
  | succ budget ih =>
    unfold drawUntilUnmet at h
    obtain failed | ⟨v, c₁, drawn, rest⟩ := run_bind_eq_error_iff.mp h
    · exact drawValue_eq_error failed
    · split at rest
      · rw [← limits_of_drawValue drawn]
        exact ih rest
      · cases rest

/-- A die that does not settle lacks budget. -/
theorem settle_eq_error (h : (settle spec).run c = (.error e, c')) :
    e = .tooManyRolls c.limits.rolls ∧ c'.remaining = 0 := by
  unfold settle at h
  split at h
  · exact drawValue_eq_error h
  · split at h
    · obtain failed | ⟨v, c₁, drawn, rest⟩ := run_bind_eq_error_iff.mp h
      · exact drawValue_eq_error failed
      · split at rest
        · rw [← limits_of_drawValue drawn]
          exact drawValue_eq_error rest
        · cases rest
    · rw [run_bind_of_ok (run_get c)] at h
      exact drawUntilUnmet_eq_error h

end Rolling

end DicePool
