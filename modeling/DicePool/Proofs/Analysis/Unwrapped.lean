import DicePool.Proofs.Analysis.Exact

/-!
# Analyses that do not wrap around

An analysis adds up the boosted numbers of every vector of answers, from the first die on, and then
the adjustment. Where these numbers can be added up, in whatever order, the tally of the totals is
that of exact arithmetic, and the tally of independent dice is the power of that of one die.
-/

namespace DicePool

open AddMonoidAlgebra

/-- The exact result of an operator. -/
def Arithmetic.exactly (o : Arithmetic) (a b : Value) : Value :=
  match o with
  | add => a + b
  | subtract => a - b
  | multiply => a * b
  | divide => a / b

/-- The exact boosted value of a die. -/
def Boost.exactly (b : Boost) (v : Value) : Value := b.operator.exactly v b.magnitude

/-- Whether no roll of the faces of a specification wraps around: the boosted faces are exact, and
those of all dice can be added up with the adjustment. -/
structure Spec.Unwrapped (spec : Spec) : Prop where
  boosted : ∀ answer, 1 ≤ answer → answer ≤ spec.faces.size →
    spec.boosted answer = spec.modifiers.boost.exactly (spec.faces.value answer)
  addable : ∀ answers : List Nat, answers.length = spec.count →
    (∀ answer ∈ answers, 1 ≤ answer ∧ answer ≤ spec.faces.size) →
    Addable ((spec.modifiers.adjustment : Value) :: answers.map spec.boosted)

namespace Spec.Unwrapped

variable {spec : Spec} {numbers : List Value}

/-- The boosted numbers of a die are exact. -/
theorem map_apply (h : spec.Unwrapped) (hn : spec.faces.numbers? = some numbers) :
    numbers.map spec.modifiers.boost.apply = numbers.map spec.modifiers.boost.exactly := by
  have numeric : spec.faces.isNumeric = true := FaceSet.isNumeric_of_numbers? hn
  rw [FaceSet.numbers?_of_isNumeric numeric, Option.some.injEq] at hn
  rw [← hn, List.map_map, List.map_map]
  apply List.map_congr_left
  intro i hi
  exact h.boosted (i + 1) (Nat.le_add_left 1 i) (List.mem_range.mp hi)

/-- What is kept of the boosted numbers of a roll has its exact sum, with and without the
adjustment. -/
theorem sum_kept (h : spec.Unwrapped) {answers : List Nat} (length : answers.length = spec.count)
    (within : ∀ answer ∈ answers, 1 ≤ answer ∧ answer ≤ spec.faces.size) :
    Value.sum (spec.kept answers) = (spec.kept answers).sum ∧
      spec.totalOf answers = (spec.kept answers).sum + spec.modifiers.adjustment := by
  have left : (spec.kept answers).Subperm (answers.map spec.boosted) :=
    spec.modifiers.filterPool_subperm _
  have all := (h.addable answers length within).subperm ((List.subperm_cons _).mpr left)
  exact ⟨all.tail.sum_eq, all.sum_plus_eq⟩

/-- Faces whose boosted numbers are exact and weigh so little that 64 bits can count what all dice
weigh with the adjustment do not wrap around. -/
theorem of_light {d w : Nat} (hn : spec.faces.numbers? = some numbers)
    (exact : ∀ v ∈ numbers, spec.modifiers.boost.apply v = spec.modifiers.boost.exactly v)
    (light : ∀ v ∈ numbers, Light d w [spec.modifiers.boost.apply v]) (parts : 0 < d ∧ d < 2 ^ 63)
    (small : spec.modifiers.adjustment.natAbs * d + spec.count * w < 2 ^ 63) :
    spec.Unwrapped := by
  have numeric : spec.faces.isNumeric = true := FaceSet.isNumeric_of_numbers? hn
  rw [FaceSet.numbers?_of_isNumeric numeric, Option.some.injEq] at hn
  have face (answer : Nat) (least : 1 ≤ answer) (most : answer ≤ spec.faces.size) :
      spec.faces.value answer ∈ numbers := by
    obtain ⟨i, rfl⟩ := Nat.exists_eq_add_of_le' least
    exact hn ▸ List.mem_map_of_mem (List.mem_range.mpr most)
  constructor
  · exact fun answer least most ↦ exact _ (face answer least most)
  · intro answers length within
    have each : ∀ answer ∈ answers, Light d w [spec.boosted answer] := fun answer ha ↦
      light _ (face answer (within answer ha).1 (within answer ha).2)
    exact ⟨d, _, (Light.intCast d _).append (Light.map each), parts, length ▸ small⟩

/-- Boosted faces, one for each die, can be added up with the adjustment. -/
theorem addable_of_mem (h : spec.Unwrapped) (hn : spec.faces.numbers? = some numbers)
    {values : List Value} (length : values.length = spec.count)
    (faces : ∀ v ∈ values, v ∈ numbers.map spec.modifiers.boost.apply) :
    Addable ((spec.modifiers.adjustment : Value) :: values) := by
  have answered : ∃ answers : List Nat, values = answers.map spec.boosted ∧
      ∀ answer ∈ answers, 1 ≤ answer ∧ answer ≤ spec.faces.size := by
    clear length
    induction values with
    | nil => exact ⟨[], rfl, nofun⟩
    | cons v values ih =>
      obtain ⟨face, others⟩ := List.forall_mem_cons.mp faces
      obtain ⟨answers, rfl, within⟩ := ih others
      rw [Analysis.map_boosted hn] at face
      obtain ⟨i, hi, rfl⟩ := List.mem_map.mp face
      exact ⟨(i + 1) :: answers, rfl,
        List.forall_mem_cons.mpr ⟨⟨Nat.le_add_left 1 i, List.mem_range.mp hi⟩, within⟩⟩
  obtain ⟨answers, rfl, within⟩ := answered
  exact h.addable answers (length ▸ (List.length_map _).symm) within

end Spec.Unwrapped

namespace Analysis

variable {spec : Spec} {numbers : List Value}

/-- Independent dice that do not wrap around multiply. -/
theorem series_power_of_unwrapped (h : spec.Unwrapped) (hn : spec.faces.numbers? = some numbers)
    (hc : 0 < spec.count) (hs : spec.modifiers.selects = false) :
    (@Tally.power Value _ _ Value.wrapping (single spec numbers) spec.count).series =
      (single spec numbers).series ^ spec.count := by
  rw [series_power_rolls hn hc, series_single hn, sum_pow_rolls]
  apply Finset.sum_congr rfl
  intro x hx
  have sum := (h.sum_kept List.length_ofFn (within_of_mem_rolls hx)).1
  rw [Spec.kept, Modifiers.filterPool_of_not_selects hs] at sum
  rw [sum, prod_single, Finset.prod_const_one, List.map_ofFn, List.sum_ofFn]
  rfl

/-- The adjustment is added to totals that do not wrap around exactly. -/
theorem map_plus_ofTally (h : spec.Unwrapped) {t : Tallies} (counted : t.OfRolls spec) :
    (Distribution.ofTally t.totals).map (Value.plus · spec.modifiers.adjustment) =
      (Distribution.ofTally t.totals).map (· + (spec.modifiers.adjustment : Value)) := by
  apply Distribution.map_congr
  intro k hk
  rw [Distribution.keys_ofTally] at hk
  obtain ⟨x, hx, rfl⟩ : ∃ x ∈ rolls spec, Value.sum (spec.kept (List.ofFn x)) = k := by
    have rolled := counted.totals.exists_mem_keys_iff fun k' ↦ k' = k
    simp only [decide_eq_true_eq] at rolled
    exact rolled.mp ⟨k, hk, rfl⟩
  obtain ⟨sum, total⟩ := h.sum_kept List.length_ofFn (within_of_mem_rolls hx)
  rw [← Spec.totalOf, total, sum]

end Analysis

end DicePool
