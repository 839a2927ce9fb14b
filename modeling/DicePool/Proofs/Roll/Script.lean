import DicePool.Proofs.Face
import DicePool.Proofs.Roll.Run
import DicePool.Proofs.Value

/-!
# Rolling with given answers

A script answers with the numbers of a list, one for each draw. Dice that neither explode nor are
drawn again take one answer each, so a roll of such dice is a function of the answers.
-/

namespace DicePool

/-- A roller that gives the answers of a list in order, and one after their end. -/
structure Script where
  answers : List Nat
  deriving Repr, DecidableEq

/-- A script answers without regard to the sides. -/
instance : Roller Script where
  roll s _ := (s.answers.headD 1, ⟨s.answers.tail⟩)

/-- What a boost makes is narrow. -/
theorem Boost.narrow_apply (b : Boost) (v : Value) : Value.Narrow (b.apply v) := by
  unfold Boost.apply
  cases b.operator with
  | add => exact Value.narrow_plus v b.magnitude
  | subtract => exact Value.narrow_minus v b.magnitude
  | multiply => exact Value.narrow_times v b.magnitude
  | divide => exact Value.narrow_dividedBy v b.magnitude

namespace Spec

/-- Whether every die is drawn exactly once. -/
def Plain (spec : Spec) : Prop :=
  spec.modifiers.explode? = none ∧ spec.modifiers.reroll? = none

/-- Dice are drawn once if they neither explode nor are rerolled. -/
theorem plain_iff {spec : Spec} : spec.Plain ↔ spec.modifiers.contains .explode = false ∧
    spec.modifiers.contains .reroll = false := by
  unfold Spec.Plain Modifiers.contains Modifiers.get?
  rw [Option.isSome_map, Option.isSome_map, Option.isSome_eq_false_iff,
    Option.isSome_eq_false_iff, Option.isNone_iff_eq_none, Option.isNone_iff_eq_none]

/-- The boosted number that an answer brings up. -/
def boosted (spec : Spec) (answer : Nat) : Value :=
  spec.modifiers.boost.apply (spec.faces.value answer)

/-- Boosted numbers are narrow. -/
theorem narrow_boosted (spec : Spec) (answer : Nat) : Value.Narrow (spec.boosted answer) :=
  Boost.narrow_apply spec.modifiers.boost (spec.faces.value answer)

/-- The boosted numbers of the answers that are left after keeping and dropping. -/
def kept (spec : Spec) (answers : List Nat) : List Value :=
  spec.modifiers.filterPool (answers.map spec.boosted)

/-- The total of the answers: what is left of their boosted numbers, moved by the adjustment. -/
def totalOf (spec : Spec) (answers : List Nat) : Value :=
  Value.plus (Value.sum (spec.kept answers)) spec.modifiers.adjustment

end Spec

namespace Rolling

/-- A drawn number takes one answer and one unit of the budget. -/
theorem run_drawValue_script (faces : FaceSet) (limits : Limits) (left answer : Nat)
    (rest : List Nat) :
    (drawValue faces).run ⟨limits, left + 1, Script.mk (answer :: rest)⟩ =
      (.ok (faces.value answer), ⟨limits, left, ⟨rest⟩⟩) := by
  unfold drawValue
  rw [run_bind_of_ok (run_draw_of_remaining_eq_succ faces _ rfl)]
  rfl

/-- A die that is drawn once has a chain of one value. -/
theorem run_chain_script {spec : Spec} (h : spec.Plain) (limits : Limits)
    (allowance left answer : Nat) (rest : List Nat) :
    (chain spec allowance).run ⟨limits, left + 1, Script.mk (answer :: rest)⟩ =
      (.ok ⟨[spec.faces.value answer], [spec.boosted answer]⟩, ⟨limits, left, ⟨rest⟩⟩) := by
  have settled : (settle spec).run ⟨limits, left + 1, Script.mk (answer :: rest)⟩ =
      (.ok (spec.faces.value answer), ⟨limits, left, ⟨rest⟩⟩) := by
    rw [settle, h.2]
    exact run_drawValue_script spec.faces limits left answer rest
  unfold chain
  rw [run_bind_of_ok settled, h.1]
  rfl

/-- Dice that are drawn once take one answer each, in order. -/
theorem run_chains_script {spec : Spec} (h : spec.Plain) (limits : Limits) (left : Nat)
    (answers rest : List Nat) :
    (chains spec answers.length).run ⟨limits, left + answers.length, Script.mk (answers ++ rest)⟩ =
      (.ok ⟨answers.map spec.faces.value, answers.map spec.boosted⟩,
        ⟨limits, left, ⟨rest⟩⟩) := by
  induction answers with
  | nil => rfl
  | cons answer answers ih =>
    rw [List.length_cons, chains, run_bind_of_ok (run_get _), ← Nat.add_assoc, List.cons_append,
      run_bind_of_ok (run_chain_script h limits _ _ answer _), run_bind_of_ok ih]
    rfl

/-- The outcome of dice that are drawn once, by the answers. -/
theorem run_evaluate_script {spec : Spec} (h : spec.Plain) (hn : spec.isNumeric = true)
    (limits : Limits) {answers : List Nat} (hl : answers.length = spec.count)
    (hb : spec.count ≤ limits.rolls) :
    (evaluate spec).run (Context.new limits (Script.mk answers)) =
      (.ok ⟨(answers.map spec.faces.value).map .number, (spec.kept answers).map .number⟩,
        ⟨limits, limits.rolls - answers.length, ⟨[]⟩⟩) := by
  have all := run_chains_script h limits (limits.rolls - answers.length) answers []
  rw [Nat.sub_add_cancel (by omega), List.append_nil] at all
  unfold evaluate
  rw [run_bind_of_ok (run_refill _), if_pos hn, ← hl]
  exact run_bind_of_ok all

/-- Scoring under the limits uses up exactly the given answers and ends with `scored`. -/
def Yields (name : String) (spec : Spec) (limits : Limits) (answers : List Nat)
    (scored : Scored) : Prop :=
  (score name spec).run (Context.new limits (Script.mk answers)) =
    (.ok scored, ⟨limits, limits.rolls - answers.length, ⟨[]⟩⟩)

theorem filterMap_number (values : List Value) :
    (values.map Face.number).filterMap Face.number? = values := by
  rw [List.filterMap_map]
  exact List.filterMap_some

/-- Dice that are drawn once have one score for their answers. -/
theorem yields_iff {spec : Spec} (h : spec.Plain) (hn : spec.isNumeric = true) (name : String)
    (limits : Limits) {answers : List Nat} (hl : answers.length = spec.count)
    (hb : spec.count ≤ limits.rolls) (scored : Scored) :
    Yields name spec limits answers scored ↔
      Outcome.score ⟨(answers.map spec.faces.value).map .number,
        (spec.kept answers).map .number⟩ name spec = scored := by
  unfold Yields score
  rw [run_bind_of_ok (run_evaluate_script h hn limits hl hb), run_pure]
  simp

end Rolling

namespace Outcome

/-- The total of a pool of numbers is their sum, moved by the adjustment. -/
theorem total_numbers {spec : Spec} (hn : spec.isNumeric = true) (natural : List Face)
    (values : List Value) :
    (Outcome.mk natural (values.map .number)).total spec =
      Value.plus (Value.sum values) spec.modifiers.adjustment := by
  rw [total, if_pos hn, Rolling.filterMap_number]

/-- Among numbers, those that meet the condition are counted. -/
theorem matching_numbers (values : List Value) (c : Condition) :
    matching (values.map .number) c = values.countP c.holds := by
  rw [matching, Rolling.filterMap_number]

end Outcome
end DicePool
