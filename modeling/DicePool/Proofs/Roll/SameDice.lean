import DicePool.Proofs.Roll.Positions
import DicePool.Roller.Source

/-!
# Specifications that roll the same dice

Which dice are drawn depends on their number, their faces and what is done with each of them, and of
an explosion only on when it goes on. Specifications that agree on these draw the same dice from
every roller, in the same order, and fail in the same place; each of them then makes its own of the
dice. What is kept, dropped, counted or checked has no part in the roll.
-/

namespace DicePool

namespace Spec

/-- Whether two specifications draw the same dice: they may differ in what they make of those of an
explosion, and in all that is done with the pool. -/
structure SameDice (spec spec' : Spec) : Prop where
  count : spec.count = spec'.count
  faces : spec.faces = spec'.faces
  boost : spec.modifiers.boost = spec'.modifiers.boost
  reroll : spec.modifiers.reroll? = spec'.modifiers.reroll?
  condition : spec.modifiers.explode?.map Explosion.condition =
    spec'.modifiers.explode?.map Explosion.condition

/-- Whether two specifications roll alike: they may differ only in what is kept, dropped, counted,
adjusted and checked. -/
structure RollsLike (spec spec' : Spec) : Prop where
  count : spec.count = spec'.count
  faces : spec.faces = spec'.faces
  boost : spec.modifiers.boost = spec'.modifiers.boost
  explode : spec.modifiers.explode? = spec'.modifiers.explode?
  reroll : spec.modifiers.reroll? = spec'.modifiers.reroll?

/-- A specification that keeps and drops other dice. -/
def select (spec : Spec) (keep? drop? : Option Selection) : Spec :=
  { spec with modifiers := { spec.modifiers with keep?, drop? } }

/-- What is kept and dropped has no part in the roll. -/
theorem rollsLike_select (spec : Spec) (keep? drop? : Option Selection) :
    spec.RollsLike (spec.select keep? drop?) := ⟨rfl, rfl, rfl, rfl, rfl⟩

/-- The faces that are listed and those that count, if the positions fall on given values. -/
def outcome (spec : Spec) (rows : List (List Value)) : Outcome where
  natural := (spec.positions rows).natural.map .number
  modified := (spec.modifiers.filterPool (spec.positions rows).modified).map .number

variable {spec spec' : Spec} {vs : List Value}

/-- Specifications that roll alike draw the same dice. -/
theorem RollsLike.sameDice (h : spec.RollsLike spec') : spec.SameDice spec' :=
  ⟨h.count, h.faces, h.boost, h.reroll, by rw [h.explode]⟩

/-- Specifications that roll alike make the same of the dice of each position. -/
theorem RollsLike.positions (h : spec.RollsLike spec') : spec.positions = spec'.positions := by
  have position : spec.position = spec'.position := by
    funext vs
    unfold Spec.position
    rw [h.explode, h.boost]
  funext rows
  unfold Spec.positions
  rw [position]

namespace SameDice

/-- A specification draws its own dice. -/
theorem refl (spec : Spec) : spec.SameDice spec := ⟨rfl, rfl, rfl, rfl, rfl⟩

/-- The same dice are followed by others. -/
theorem explodes (h : spec.SameDice spec') : spec.explodes = spec'.explodes := by
  funext v
  have whether (s : Spec) : s.explodes v = (s.modifiers.explode?.map Explosion.condition).any
      fun c ↦ c.holds (s.modifiers.boost.apply v) := by
    unfold Spec.explodes
    rw [Option.any_map]
  rw [whether, whether, h.condition, h.boost]

/-- The same dice make up a position. -/
theorem ended (h : spec.SameDice spec') (ended : spec.Ended vs) : spec'.Ended vs := by
  induction ended with
  | last settled => exact .last (h.explodes ▸ settled)
  | next explodes _ ih => exact .next (h.explodes ▸ explodes) ih

/-- Dice that show numbers do so in both. -/
theorem isNumeric (h : spec.SameDice spec') (hn : spec.isNumeric = true) :
    spec'.isNumeric = true := by
  rw [Spec.isNumeric, ← h.faces]
  exact hn

end SameDice

end Spec

namespace Rolling

variable {σ : Type} [Roller σ] {spec spec' : Spec} {c c' : Context σ} {rows : List (List Value)}
  {e : Error}

/-- The same dice settle in the same way. -/
theorem settle_congr (h : spec.SameDice spec') :
    (settle spec : Rolling σ Value) = settle spec' := by
  unfold settle
  rw [h.faces, h.reroll]

/-- The same dice fall on the same values. -/
theorem Falls.congr (h : spec.SameDice spec') (falls : Falls spec c rows c') :
    Falls spec' c rows c' where
  ended vs hvs := h.ended (falls.ended vs hvs)
  within := falls.within
  dice := settle_congr (σ := σ) h ▸ falls.dice

/-- The same dice break off in the same place. -/
theorem BreaksOff.congr (h : spec.SameDice spec') {allowance : Nat} {vs : List Value}
    (broken : BreaksOff spec allowance c vs e c') : BreaksOff spec' allowance c vs e c' := by
  unfold BreaksOff at broken ⊢
  rwa [← h.explodes, ← settle_congr h]

/-- Each specification makes its own of the same dice. -/
theorem run_evaluate_of_falls (h : spec.SameDice spec') (hn : spec.isNumeric = true)
    (length : rows.length = spec.count) (falls : Falls spec c.refilled rows c') :
    (evaluate spec').run c = (.ok (spec'.outcome rows), c') :=
  (evaluate_eq_ok_iff (h.isNumeric hn)).mpr
    ⟨rows, length.trans h.count, falls.congr h, rfl, rfl⟩

/-- The same dice fail with the same error, in the same place. -/
theorem run_evaluate_of_error (h : spec.SameDice spec') (hn : spec.isNumeric = true)
    (failed : (evaluate spec).run c = (.error e, c')) :
    (evaluate spec').run c = (.error e, c') := by
  obtain ⟨rows, vs, c₁, fewer, falls, broken⟩ := (evaluate_eq_error_iff hn).mp failed
  apply (evaluate_eq_error_iff (h.isNumeric hn)).mpr
  exact ⟨rows, vs, c₁, h.count ▸ fewer, falls.congr h, broken.congr h⟩

/-- A roll of numbers fails, or its positions fall on values. -/
theorem evaluate_cases (hn : spec.isNumeric = true) (c : Context σ) :
    (∃ e c', (evaluate spec).run c = (.error e, c')) ∨
      ∃ rows c', rows.length = spec.count ∧ Falls spec c.refilled rows c' := by
  match run : (evaluate spec).run c with
  | (.error e, c') => exact .inl ⟨e, c', rfl⟩
  | (.ok o, c') =>
    obtain ⟨rows, length, falls, _⟩ := (evaluate_eq_ok_iff hn).mp run
    exact .inr ⟨rows, c', length, falls⟩

/-- Two specifications of dice that show numbers, which agree on the number of dice, their faces,
boost, explosion and reroll, and differ in any way in what is kept, dropped, counted, adjusted and
checked, fail with the same error or list the same faces, after the same draws from every roller:
they leave it in the same state, and the same budget. What counts for each is what its own keep and
drop leave of the pool that counts for it without these, which is the same for both. -/
theorem evaluate_ignores_selection (h : spec.RollsLike spec') (hn : spec.isNumeric = true)
    (c : Context σ) :
    (∃ e c', (evaluate spec).run c = (.error e, c') ∧ (evaluate spec').run c = (.error e, c')) ∨
      ∃ natural values c',
        (evaluate (spec.select none none)).run c = (.ok ⟨natural, values.map .number⟩, c') ∧
        (evaluate (spec'.select none none)).run c = (.ok ⟨natural, values.map .number⟩, c') ∧
        (evaluate spec).run c =
          (.ok ⟨natural, (spec.modifiers.filterPool values).map .number⟩, c') ∧
        (evaluate spec').run c =
          (.ok ⟨natural, (spec'.modifiers.filterPool values).map .number⟩, c') := by
  have run {other : Spec} (like : spec.RollsLike other) {rows : List (List Value)} {c' : Context σ}
      (length : rows.length = spec.count) (falls : Falls spec c.refilled rows c') :
      (evaluate other).run c = (.ok ⟨(spec.positions rows).natural.map .number,
        (other.modifiers.filterPool (spec.positions rows).modified).map .number⟩, c') := by
    rw [run_evaluate_of_falls like.sameDice hn length falls, Spec.outcome, like.positions]
  have bare : spec.RollsLike (spec'.select none none) :=
    ⟨h.count, h.faces, h.boost, h.explode, h.reroll⟩
  obtain ⟨e, c', failed⟩ | ⟨rows, c', length, falls⟩ := evaluate_cases hn c
  · exact .inl ⟨e, c', failed, run_evaluate_of_error h.sameDice hn failed⟩
  · exact .inr ⟨_, (spec.positions rows).modified, c',
      run (spec.rollsLike_select none none) length falls, run bare length falls,
      run ⟨rfl, rfl, rfl, rfl, rfl⟩ length falls, run h length falls⟩

private def sixExplodes : Modifiers := { explode? := some ⟨⟨.equal, 6⟩, false, false⟩ }

private def keepsHighest : Spec where
  count := 2
  faces := .cube
  modifiers := { sixExplodes with keep? := some ⟨.high, 1⟩, success? := some ⟨.greater, 4⟩ }

private def dropsHighest : Spec where
  count := 2
  faces := .cube
  modifiers :=
    { sixExplodes with
      drop? := some ⟨.high, 1⟩, adjust? := some 3, totalCheck? := some ⟨.less, 9⟩ }

private def sixTwoFour : Source := .cycle true [6, 2, 4] 0

/-- Two dice that fall on six, which explodes into two, and on four: the same faces are listed and
left to choose from, whether the highest is kept or dropped. -/
theorem evaluate_ignores_selection_sixTwoFour :
    ∃ natural values c', natural = [.number 6, .number 2, .number 4] ∧ values = [6, 2, 4] ∧
      (evaluate (keepsHighest.select none none)).run (Context.new {} sixTwoFour) =
        (.ok ⟨natural, values.map .number⟩, c') ∧
      (evaluate keepsHighest).run (Context.new {} sixTwoFour) =
        (.ok ⟨natural, (keepsHighest.modifiers.filterPool values).map .number⟩, c') ∧
      (evaluate dropsHighest).run (Context.new {} sixTwoFour) =
        (.ok ⟨natural, (dropsHighest.modifiers.filterPool values).map .number⟩, c') := by
  have like : keepsHighest.RollsLike dropsHighest := ⟨rfl, rfl, rfl, rfl, rfl⟩
  obtain ⟨o, c₁, run, shown⟩ := exists_result
    (r := (evaluate (keepsHighest.select none none)).run (Context.new {} sixTwoFour)) (f := id)
    (b := ⟨[.number 6, .number 2, .number 4], ([6, 2, 4] : List Value).map .number⟩)
    (by decide +kernel)
  obtain ⟨e, c', failed, _⟩ | ⟨natural, values, c', bare, _, kept, dropped⟩ :=
    evaluate_ignores_selection like rfl (Context.new {} sixTwoFour)
  · have failed' := run_evaluate_of_error (keepsHighest.rollsLike_select none none).sameDice rfl
      failed
    exact nomatch run.symm.trans failed'
  · cases run.symm.trans bare
    have numbers := (List.map_inj_right fun _ _ ↦ Face.number.inj).mp
      (congrArg Outcome.modified shown)
    exact ⟨natural, values, c₁, congrArg Outcome.natural shown, numbers, bare, kept, dropped⟩

end Rolling

end DicePool
