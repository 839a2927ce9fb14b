import DicePool.Expression.Parse
import DicePool.Proofs.Analysis.Extremes
import DicePool.Proofs.Duality
import DicePool.Proofs.Modifiers.Window
import Mathlib.Tactic.Ring

/-!
# Boosts as changes of the total

A boost is made to each die before dice are kept or dropped. One that keeps the faces in order
leaves the same dice, so that it changes the total of every roll by a rule of its own: it adds a
multiple of the dice that are left, or it scales the total apart from the adjustment. Where nothing
wraps around, the exact distribution is relabelled by this rule.
-/

namespace DicePool

namespace Boost

/-- Whether the boost keeps values in order. -/
def Rising (b : Boost) : Prop :=
  match b.operator with
  | .add | .subtract => True
  | .multiply => 0 ≤ b.magnitude
  | .divide => 1 ≤ b.magnitude

/-- What the boost of a number of dice does to their total, of which a part is the adjustment. -/
def onTotal (b : Boost) (dice : Nat) (adjustment total : Value) : Value :=
  match b.operator with
  | .add => total + dice * b.magnitude
  | .subtract => total - dice * b.magnitude
  | .multiply => (total - adjustment) * b.magnitude + adjustment
  | .divide => (total - adjustment) / b.magnitude + adjustment

/-- A rising boost is monotone where it is exact. -/
theorem Rising.monotone {b : Boost} (h : b.Rising) : Monotone b.exactly := by
  obtain ⟨operator, magnitude⟩ := b
  intro v w hvw
  cases operator with
  | add => exact add_le_add_left hvw _
  | subtract => exact sub_le_sub_right hvw _
  | multiply => exact mul_le_mul_of_nonneg_right hvw (by exact_mod_cast h)
  | divide =>
    have nonneg : (0 : Int) ≤ magnitude := Int.le_trans Int.one_nonneg h
    exact div_le_div_of_nonneg_right hvw (by exact_mod_cast nonneg)

/-- A boost that changes nothing leaves values alone where it is exact. -/
theorem exactly_of_isIdentity {b : Boost} (h : b.isIdentity = true) (v : Value) :
    b.exactly v = v := by
  obtain ⟨operator, magnitude⟩ := b
  cases operator with
  | add => obtain rfl := of_decide_eq_true h; exact add_zero v
  | subtract => obtain rfl := of_decide_eq_true h; exact sub_zero v
  | multiply => obtain rfl := of_decide_eq_true h; exact mul_one v
  | divide => obtain rfl := of_decide_eq_true h; exact div_one v

/-- Boosted values sum to what the boost makes of their sum. -/
theorem sum_map_exactly (b : Boost) (adjustment : Value) (values : List Value) :
    (values.map b.exactly).sum + adjustment =
      b.onTotal values.length adjustment (values.sum + adjustment) := by
  obtain ⟨operator, magnitude⟩ := b
  induction values with
  | nil => cases operator <;> simp [onTotal]
  | cons v values ih =>
    rw [List.map_cons, List.sum_cons, List.sum_cons, add_assoc, ih, List.length_cons]
    cases operator <;>
      simp only [onTotal, exactly, Arithmetic.exactly, Nat.cast_add, Nat.cast_one] <;> ring

end Boost

namespace Spec

/-- The number of dice that are left after keeping and dropping. -/
def leftCount (spec : Spec) : Nat :=
  spec.modifiers.keptCount spec.count - spec.modifiers.droppedCount spec.count

/-- As many values are left of a roll as dice. -/
theorem length_kept (spec : Spec) {answers : List Nat} (h : answers.length = spec.count) :
    (spec.kept answers).length = spec.leftCount := by
  rw [kept, Modifiers.length_filterPool, List.length_map, h, leftCount]

/-- A rising boost in place of one that changes nothing is made to the total, if neither roll wraps
around. -/
theorem totalOf_insert_boost {spec : Spec} (neutral : spec.modifiers.boost.isIdentity = true)
    {b : Boost} (rising : b.Rising) (unwrapped : spec.Unwrapped)
    (unwrapped' : (spec.insert (.boost b)).Unwrapped) {answers : List Nat}
    (length : answers.length = spec.count)
    (within : ∀ answer ∈ answers, 1 ≤ answer ∧ answer ≤ spec.faces.size) :
    (spec.insert (.boost b)).totalOf answers =
      b.onTotal spec.leftCount spec.modifiers.adjustment (spec.totalOf answers) := by
  have boosted : answers.map (spec.insert (.boost b)).boosted =
      (answers.map spec.boosted).map b.exactly := by
    rw [List.map_map]
    apply List.map_congr_left
    intro answer ha
    obtain ⟨least, most⟩ := within answer ha
    rw [Function.comp_apply, unwrapped.boosted answer least most,
      Boost.exactly_of_isIdentity neutral]
    exact unwrapped'.boosted answer least most
  have kept : (spec.insert (.boost b)).kept answers = (spec.kept answers).map b.exactly := by
    rw [Spec.kept, boosted]
    exact spec.modifiers.filterPool_map rising.monotone _
  rw [(unwrapped'.sum_kept length within).2, (unwrapped.sum_kept length within).2, kept,
    ← spec.length_kept length]
  exact b.sum_map_exactly spec.modifiers.adjustment (spec.kept answers)

end Spec

namespace Analysis

variable {spec : Spec} {limits limits' : Limits} {plain boosted : Analysis}

/-- A modifier that changes the total of each roll by a rule relabels the distribution. -/
private theorem distribution_insert {x : Modifier} {t t' : Tallies} {f : Value → Value}
    (h : IsExact spec t plain) (h' : IsExact (spec.insert x) t' boosted)
    (rule : ∀ answers : List Nat, answers.length = spec.count →
      (∀ answer ∈ answers, 1 ≤ answer ∧ answer ≤ spec.faces.size) →
      (spec.insert x).totalOf answers = f (spec.totalOf answers)) :
    boosted.distribution = plain.distribution.map f := by
  have ascending : Table.Ascending boosted.distribution.outcomes := by
    rw [h'.distribution]
    exact Distribution.ascending_map _ _
  apply Distribution.eq_of_probability ascending (Distribution.ascending_map f plain.distribution)
  · intro v
    have labels : v ∈ Table.keys (plain.distribution.map f).outcomes ↔
        ∃ x ∈ rolls spec, f (spec.totalOf (List.ofFn x)) = v := by
      have outcomes := h.exists_mem_keys_iff fun k ↦ f k = v
      simp only [decide_eq_true_eq] at outcomes
      rw [Distribution.mem_keys_map, outcomes]
    rw [h'.mem_keys_iff, labels]
    apply exists_congr
    intro answers
    apply and_congr_right
    intro rolled
    rw [rule (List.ofFn answers) List.length_ofFn (within_of_mem_rolls rolled)]
    exact Iff.rfl
  · intro v
    have rolled (event : List Nat → Prop) :
        frequency (spec.insert x) event = frequency spec event := rfl
    rw [Distribution.probability, Distribution.probability, Distribution.massWhere_map,
      h.massWhere, h'.massWhere, rolled]
    apply frequency_congr
    intro answers length within
    rw [rule answers length within]

/-- Where analyses of at least one die succeed with and without a rising boost, and no roll wraps
around with or without it, the distribution with the boost is the other, relabelled by what the
boost of the dice that are left of a roll does to the total. -/
theorem exact_boost (hc : 1 ≤ spec.count) (neutral : spec.modifiers.boost.isIdentity = true)
    (h : exact spec limits = .ok plain) {b : Boost} (rising : b.Rising)
    (h' : exact (spec.insert (.boost b)) limits' = .ok boosted) :
    (∀ pool : List Value, pool.length = spec.count →
      (spec.modifiers.filterPool pool).length = spec.leftCount) ∧
    (spec.Unwrapped → (spec.insert (.boost b)).Unwrapped → boosted.distribution =
      plain.distribution.map (b.onTotal spec.leftCount spec.modifiers.adjustment)) := by
  constructor
  · intro pool length
    rw [Modifiers.length_filterPool, length, Spec.leftCount]
  · intro unwrapped unwrapped'
    obtain ⟨t, made⟩ := isExact_of_ok hc h
    have hc' : 1 ≤ (spec.insert (.boost b)).count := hc
    obtain ⟨t', made'⟩ := isExact_of_ok hc' h'
    exact distribution_insert made made' fun answers length within ↦
      Spec.totalOf_insert_boost neutral rising unwrapped unwrapped' length within

private def higherAndThree : Spec where
  count := 2
  faces := .cube
  modifiers := { adjust? := some 3, keep? := some ⟨.high, 1⟩ }

/-- The higher of two dice, to which three is added: five more on each die are five more in total,
and dice that count for nothing leave the three. -/
theorem exact_boost_higherAndThree :
    ∃ plain raised void, exact higherAndThree {} = .ok plain ∧
      exact (higherAndThree.insert (.boost ⟨.add, 5⟩)) {} = .ok raised ∧
      exact (higherAndThree.insert (.boost ⟨.multiply, 0⟩)) {} = .ok void ∧
      raised.distribution = plain.distribution.map (fun x : Value ↦ x + 1 * 5) ∧
      void.distribution = plain.distribution.map fun x : Value ↦ (x - 3) * 0 + 3 := by
  obtain ⟨plain, h⟩ : ∃ analysis, exact higherAndThree {} = .ok analysis :=
    exists_exact_ok ⟨rfl, rfl⟩ rfl (by decide) fun _ ↦ by decide +kernel
  obtain ⟨raised, hr⟩ :
      ∃ analysis, exact (higherAndThree.insert (.boost ⟨.add, 5⟩)) {} = .ok analysis :=
    exists_exact_ok ⟨rfl, rfl⟩ rfl (by decide) fun _ ↦ by decide +kernel
  obtain ⟨void, hv⟩ :
      ∃ analysis, exact (higherAndThree.insert (.boost ⟨.multiply, 0⟩)) {} = .ok analysis :=
    exists_exact_ok ⟨rfl, rfl⟩ rfl (by decide) fun _ ↦ by decide +kernel
  have moves : Boost.Rising ⟨.add, 5⟩ := trivial
  have merges : Boost.Rising ⟨.multiply, 0⟩ := Int.le_refl 0
  have unwrapped : higherAndThree.Unwrapped := .of_light (d := 1) (w := 6) rfl
    (by decide +kernel) (by decide +kernel) (by decide) (by decide)
  have unwrapped_raised : (higherAndThree.insert (.boost ⟨.add, 5⟩)).Unwrapped :=
    .of_light (d := 1) (w := 11) rfl (by decide +kernel) (by decide +kernel) (by decide) (by decide)
  have unwrapped_void : (higherAndThree.insert (.boost ⟨.multiply, 0⟩)).Unwrapped :=
    .of_light (d := 1) (w := 0) rfl (by decide +kernel) (by decide +kernel) (by decide) (by decide)
  exact ⟨plain, raised, void, h, hr, hv,
    (exact_boost (by decide) rfl h moves hr).2 unwrapped unwrapped_raised,
    (exact_boost (by decide) rfl h merges hv).2 unwrapped unwrapped_void⟩

private def higherOfLeastOrFive : Spec where
  count := 2
  faces := .leastOrFive
  modifiers :=
    { boost? := some ⟨.add, 0⟩, adjust? := some 0, success? := some ⟨.greaterEqual, 5⟩,
      keep? := some ⟨.high, 1⟩ }

/-- The higher of two dice that show the least integer or five: one less on each die makes the least
integer the largest, so that only a quarter of the rolls come to no more than four, and not all of
them, as one less in total would have it. -/
theorem not_forall_distribution_insert_boost :
    ∃ plain lowered, Expression.parse "2d{-9223372036854775808,5}kh1" = .ok higherOfLeastOrFive ∧
      Expression.parse "2d{-9223372036854775808,5}-1kh1" =
        .ok (higherOfLeastOrFive.insert (.boost ⟨.subtract, 1⟩)) ∧
      exact higherOfLeastOrFive {} = .ok plain ∧
      exact (higherOfLeastOrFive.insert (.boost ⟨.subtract, 1⟩)) {} = .ok lowered ∧
      (plain.distribution.map (Boost.onTotal ⟨.subtract, 1⟩ 1 0)).massWhere (· ≤ 4) = 1 ∧
      lowered.distribution.massWhere (· ≤ 4) = 1 / 4 := by
  have numbers : higherOfLeastOrFive.faces.numbers? = some [-9223372036854775808, 5] := rfl
  have numbers' : (higherOfLeastOrFive.insert (.boost ⟨.subtract, 1⟩)).faces.numbers? =
      some [-9223372036854775808, 5] := rfl
  obtain ⟨plain, h⟩ : ∃ analysis, exact higherOfLeastOrFive {} = .ok analysis :=
    exists_exact_ok ⟨rfl, rfl⟩ numbers (by decide) fun _ ↦ by decide +kernel
  obtain ⟨lowered, h'⟩ :
      ∃ analysis, exact (higherOfLeastOrFive.insert (.boost ⟨.subtract, 1⟩)) {} = .ok analysis :=
    exists_exact_ok ⟨rfl, rfl⟩ numbers' (by decide) fun _ ↦ by decide +kernel
  have one_less (v : Value) :
      decide (Boost.onTotal ⟨.subtract, 1⟩ 1 0 v ≤ 4) = decide (v ≤ 5) := by
    apply decide_eq_decide.mpr
    show v - ((1 : Nat) : Value) * ((1 : Int) : Value) ≤ 4 ↔ v ≤ 5
    push_cast
    constructor <;> intro <;> linarith
  refine ⟨plain, lowered, by decide +kernel, by decide +kernel, h, h', ?_, ?_⟩
  · rw [Distribution.massWhere_map]
    simp only [one_less]
    rw [massWhere_highest_le (by decide) rfl rfl numbers h rfl]
    decide +kernel
  · rw [massWhere_highest_le (by decide) rfl rfl numbers' h' rfl]
    decide +kernel

end Analysis

end DicePool
