import DicePool.Expression.Parse
import DicePool.Proofs.Roll.Closed
import DicePool.Proofs.Roll.Dice

/-!
# Exploding dice

A roll of exploding dice succeeds exactly if each position has a die that does not explode before
the depth of explosions and the budget run out, and then it is what its positions come to: their
closed form, where nothing wraps around. It lacks depth exactly if one more die of a position than
may follow the first has exploded, and budget exactly if a die does not settle before.
-/

namespace DicePool.Rolling

variable {σ : Type} [Roller σ] {spec : Spec} {c c' : Context σ} {e : Error}

/-- Whether a position comes after fewer positions than there are dice, all of whose dice so far
settle on values and explode. -/
structure Exploding (spec : Spec) (c : Context σ) (vs : List Value) (c' : Context σ) : Prop where
  before : ∃ rows c₁, rows.length < spec.count ∧ Falls spec c rows c₁ ∧
    Repeats (settle spec) c₁ vs c'
  explodes : ∀ v ∈ vs, spec.explodes v = true

/-- A roll that fails does so in a position that explodes: since one more die than may follow the
first does, or since the next die does not settle. -/
private theorem evaluate_eq_error_iff_exploding (hn : spec.isNumeric = true) :
    (evaluate spec).run c = (.error e, c') ↔
      (∃ vs, vs.length = c.limits.explosionDepth + 1 ∧
        e = .explosionDepthExceeded c.limits.explosionDepth ∧ Exploding spec c.refilled vs c') ∨
      ∃ vs c₁, vs.length ≤ c.limits.explosionDepth ∧ e = .tooManyRolls c.limits.rolls ∧
        Exploding spec c.refilled vs c₁ ∧ (settle spec).run c₁ = (.error e, c') := by
  rw [evaluate_eq_error_iff hn]
  constructor
  · rintro ⟨rows, vs, c₁, fewer, falls, explodes, c₂, dice, ⟨long, rfl, rfl⟩ | ⟨short, failed⟩⟩
    · have limits : c'.limits = c.limits := dice.limits.trans falls.dice.limits
      exact .inl ⟨vs, long, by rw [limits], ⟨rows, c₁, fewer, falls, dice⟩, explodes⟩
    · have limits : c₂.limits = c.limits := dice.limits.trans falls.dice.limits
      refine .inr ⟨vs, c₂, short, ?_, ⟨⟨rows, c₁, fewer, falls, dice⟩, explodes⟩, failed⟩
      rw [(settle_eq_error failed).1, limits]
  · rintro (⟨vs, long, rfl, ⟨rows, c₁, fewer, falls, dice⟩, explodes⟩ |
      ⟨vs, c₂, short, _, ⟨⟨rows, c₁, fewer, falls, dice⟩, explodes⟩, failed⟩)
    · have limits : c'.limits = c.limits := dice.limits.trans falls.dice.limits
      exact ⟨rows, vs, c₁, fewer, falls, explodes, c', dice, .inl ⟨long, by rw [limits], rfl⟩⟩
    · exact ⟨rows, vs, c₁, fewer, falls, explodes, c₂, dice, .inr ⟨short, failed⟩⟩

/-- A roll of exploding numbers has the positions on whose dice it settles: each ends with its first
die whose boosted value does not meet the condition, and comes to its closed form if its values can
be added up with one for each of them. The roll fails for want of depth exactly after a position of
one more die than the depth, all of which meet the condition, and for want of budget exactly where a
die of a position does not settle within the depth. -/
theorem evaluate_explosions (spec : Spec) (hn : spec.isNumeric = true) (x : Explosion)
    (hx : spec.modifiers.explode? = some x) (c c' : Context σ) :
    (∀ o, (evaluate spec).run c = (.ok o, c') ↔
      ∃ rows, rows.length = spec.count ∧ Falls spec c.refilled rows c' ∧
        o.natural =
          (rows.flatMap fun vs ↦ (x.position spec.modifiers.boost vs).natural).map .number ∧
        o.modified = (spec.modifiers.filterPool
          (rows.flatMap fun vs ↦ (x.position spec.modifiers.boost vs).modified)).map .number) ∧
    (∀ limit, (evaluate spec).run c = (.error (.explosionDepthExceeded limit), c') ↔
      limit = c.limits.explosionDepth ∧
        ∃ vs, vs.length = c.limits.explosionDepth + 1 ∧ Exploding spec c.refilled vs c') ∧
    (∀ limit, (evaluate spec).run c = (.error (.tooManyRolls limit), c') ↔
      limit = c.limits.rolls ∧ ∃ vs c₁, vs.length ≤ c.limits.explosionDepth ∧
        Exploding spec c.refilled vs c₁ ∧
        (settle spec).run c₁ = (.error (.tooManyRolls limit), c')) ∧
    (∀ e, (evaluate spec).run c = (.error e, c') →
      e = .explosionDepthExceeded c.limits.explosionDepth ∨ e = .tooManyRolls c.limits.rolls) ∧
    ∀ vs, Addable (Value.addends (vs.map spec.modifiers.boost.apply)) →
      x.position spec.modifiers.boost vs = x.closed spec.modifiers.boost vs := by
  refine ⟨fun o ↦ ?_, fun limit ↦ ?_, fun limit ↦ ?_, fun e failed ↦ ?_,
    fun _ ↦ x.position_eq_closed⟩
  · rw [evaluate_eq_ok_iff hn]
    simp only [Spec.positions, Spec.position, hx]
  · rw [evaluate_eq_error_iff_exploding hn]
    simp only [Error.explosionDepthExceeded.injEq, reduceCtorEq, false_and, and_false, exists_false,
      or_false]
    constructor
    · rintro ⟨vs, long, rfl, exploding⟩
      exact ⟨rfl, vs, long, exploding⟩
    · rintro ⟨rfl, vs, long, exploding⟩
      exact ⟨vs, long, rfl, exploding⟩
  · rw [evaluate_eq_error_iff_exploding hn]
    simp only [Error.tooManyRolls.injEq, reduceCtorEq, false_and, and_false, exists_false, false_or]
    constructor
    · rintro ⟨vs, c₁, short, rfl, exploding, failed⟩
      exact ⟨rfl, vs, c₁, short, exploding, failed⟩
    · rintro ⟨rfl, vs, c₁, short, exploding, failed⟩
      exact ⟨vs, c₁, short, rfl, exploding, failed⟩
  · obtain ⟨_, _, rfl, _⟩ | ⟨_, _, _, rfl, _⟩ := (evaluate_eq_error_iff_exploding hn).mp failed
    · exact .inl rfl
    · exact .inr rfl

private def sixes : Spec where
  count := 1
  faces := .cube
  modifiers := { explode? := some ⟨⟨.equal, 6⟩, false, true⟩ }

private def fallen : Source := .cycle true [6, 6, 2] 0

/-- A penetrating die that falls on two sixes and a two comes to six, five and one, as in exact
arithmetic; it lacks depth after both sixes if only one die may follow. -/
theorem evaluate_explosions_sixSixTwo :
    (evaluate sixes).run (Context.new {} fallen) =
      (.ok ⟨[.number 6, .number 6, .number 2], [.number 6, .number 5, .number 1]⟩,
        ⟨{}, 9997, .cycle true [6, 6, 2] 3⟩) ∧
    (evaluate sixes).run (Context.new { explosionDepth := 1 } fallen) =
      (.error (.explosionDepthExceeded 1),
        ⟨{ explosionDepth := 1 }, 9998, .cycle true [6, 6, 2] 2⟩) ∧
    (Explosion.mk ⟨.equal, 6⟩ false true).position sixes.modifiers.boost [6, 6, 2] =
      ⟨[6, 6, 2], [6, 5, 1]⟩ := by
  have numeric : sixes.isNumeric = true := rfl
  obtain ⟨succeeds, _, _, _, closed⟩ := evaluate_explosions sixes numeric _ rfl
    (Context.new {} fallen) ⟨{}, 9997, .cycle true [6, 6, 2] 3⟩
  refine ⟨?_, ?_, ?_⟩
  · apply (succeeds _).mpr
    have ended : sixes.Ended [6, 6, 2] :=
      .next (by decide +kernel) (.next (by decide +kernel) (.last (by decide +kernel)))
    refine ⟨[[6, 6, 2]], rfl, ⟨?_, ?_, ?_⟩, ?_, ?_⟩
    · exact List.forall_mem_singleton.mpr ended
    · exact List.forall_mem_singleton.mpr (by decide)
    · exact .cons rfl (.cons rfl (.cons rfl (.nil _)))
    · decide +kernel
    · decide +kernel
  · obtain ⟨_, tooDeep, _⟩ := evaluate_explosions sixes numeric _ rfl
      (Context.new { explosionDepth := 1 } fallen)
      ⟨{ explosionDepth := 1 }, 9998, .cycle true [6, 6, 2] 2⟩
    apply (tooDeep 1).mpr
    refine ⟨rfl, [6, 6], rfl, ⟨[], _, by decide, ⟨nofun, nofun, .nil _⟩, ?_⟩, ?_⟩
    · exact .cons rfl (.cons rfl (.nil _))
    · decide +kernel
  · have addable : Addable (Value.addends ([6, 6, 2].map sixes.modifiers.boost.apply)) :=
      ⟨1, 17, by decide +kernel, by decide, by decide⟩
    rw [closed _ addable]
    decide +kernel

private def leastOrFive : Spec where
  count := 1
  faces := .leastOrFive
  modifiers :=
    { boost? := some ⟨.add, 0⟩, adjust? := some 0, success? := some ⟨.greaterEqual, 5⟩,
      explode? := some ⟨⟨.notEqual, 5⟩, false, true⟩ }

/-- A die that shows the least integer or five, explodes unless it is five, and penetrates: after it
has fallen on the least integer, the next one wraps around to the largest, and is not the closed
form of the position. -/
theorem not_forall_modified_eq_closed :
    ∃ spec x o c', Expression.parse "1d{-9223372036854775808,5}xp!=5" = .ok spec ∧
      spec.modifiers.explode? = some x ∧
      (evaluate spec).run (Context.new {} (Source.cycle true [1, 1, 2] 0)) = (.ok o, c') ∧
      o.modified = [.number (-2 ^ 63), .number (2 ^ 63 - 1), .number 4] ∧
      o.modified ≠
        (x.closed spec.modifiers.boost [-2 ^ 63, -2 ^ 63, 5]).modified.map .number := by
  have read : Expression.parse "1d{-9223372036854775808,5}xp!=5" = .ok leastOrFive := by
    decide +kernel
  obtain ⟨o, c', run, modified⟩ := exists_result
    (r := (evaluate leastOrFive).run (Context.new {} (Source.cycle true [1, 1, 2] 0)))
    (f := Outcome.modified) (b := [.number (-2 ^ 63), .number (2 ^ 63 - 1), .number 4])
    (by decide +kernel)
  refine ⟨leastOrFive, _, o, c', read, rfl, run, modified, ?_⟩
  rw [modified]
  decide +kernel

end DicePool.Rolling
