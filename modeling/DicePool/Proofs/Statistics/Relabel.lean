import DicePool.Proofs.Statistics.Summary
import Mathlib.Algebra.Order.Ring.Rat
import Mathlib.Order.Monotone.Basic
import Mathlib.Tactic.Ring

/-!
# Statistics of relabelled distributions

Relabelling that keeps outcomes in order keeps their masses in place, so that every statistic that
is an outcome is relabelled. An affine change with a positive factor also relabels the mean, and
multiplies the variance by the square of the factor.
-/

namespace DicePool

namespace Distribution

variable {f : Value → Value} {d : Distribution Value}

/-- Labels in the order of the outcomes keep their masses in place. -/
theorem outcomes_map (rising : StrictMono f) (ascending : Table.Ascending d.outcomes) :
    (d.map f).outcomes = d.outcomes.map fun e ↦ (f e.1, e.2) := by
  obtain ⟨entries⟩ := d
  show entries.foldr (fun e t ↦ Table.upsert (· + ·) (f e.1) e.2 t) [] = _
  induction entries with
  | nil => rfl
  | cons e rest ih =>
    obtain ⟨first, others⟩ := List.pairwise_cons.mp ascending
    rw [List.foldr_cons, ih others, Table.upsert_of_forall_lt, List.map_cons]
    intro x hx
    rw [Table.keys, List.map_map] at hx
    obtain ⟨e', he', rfl⟩ := List.mem_map.mp hx
    exact rising (first e'.1 (List.mem_map_of_mem he'))

/-- The least outcome is relabelled. -/
theorem min?_map (rising : StrictMono f) (ascending : Table.Ascending d.outcomes) :
    (d.map f).min? = d.min?.map f := by
  rw [min?, outcomes_map rising ascending, List.head?_map, Option.map_map, min?, Option.map_map]
  rfl

/-- The greatest outcome is relabelled. -/
theorem max?_map (rising : StrictMono f) (ascending : Table.Ascending d.outcomes) :
    (d.map f).max? = d.max?.map f := by
  rw [max?, outcomes_map rising ascending, List.getLast?_map, Option.map_map, max?, Option.map_map]
  rfl

end Distribution

namespace Statistics

variable {f : Value → Value} {d : Distribution Value}

/-- The statistics with every location relabelled. -/
def relabel (f : Value → Value) (s : Statistics) : Statistics :=
  { s with
    mean := f s.mean
    min := f s.min
    max := f s.max
    mode := s.mode.map f
    median := f s.median
    percentiles := s.percentiles.map fun p ↦ (p.1, f p.2) }

/-- The modes are relabelled. -/
theorem modeOf_map (rising : StrictMono f) (ascending : Table.Ascending d.outcomes) :
    modeOf (d.map f) = (modeOf d).map f := by
  have masses : Table.values (d.map f).outcomes = Table.values d.outcomes := by
    rw [Distribution.outcomes_map rising ascending, Table.values, List.map_map]
    rfl
  have chosen (top : Probability) :
      Table.keys ((d.map f).outcomes.filter fun e ↦ e.2 = top) =
        (Table.keys (d.outcomes.filter fun e ↦ e.2 = top)).map f := by
    rw [Distribution.outcomes_map rising ascending, List.filter_map, Table.keys, Table.keys,
      List.map_map, List.map_map]
    rfl
  unfold modeOf
  rw [masses]
  split
  · rfl
  · exact chosen _

private theorem reach_map (f : Value → Value) (target sum : Probability)
    (t : Table Value Probability) :
    reach target sum (t.map fun e ↦ (f e.1, e.2)) = (reach target sum t).map f := by
  induction t generalizing sum with
  | nil => rfl
  | cons e rest ih =>
    rw [List.map_cons, reach, reach, ih]
    split <;> rfl

/-- Percentiles are relabelled. -/
theorem percentile_map (rising : StrictMono f) (ascending : Table.Ascending d.outcomes)
    (percent : Nat) (greatest : Value) :
    percentile (d.map f) percent (f greatest) = f (percentile d percent greatest) := by
  unfold percentile
  rw [Distribution.outcomes_map rising ascending, reach_map, Option.getD_map]

section Affine

variable (scale shift : Rat)

/-- Where the masses add up to one, an affine change is made to the mean. -/
theorem meanOf_map_affine (whole : d.mass = 1) :
    meanOf (d.map fun v ↦ scale * v + shift) = scale * meanOf d + shift := by
  rw [Distribution.meanOf_eq_expectation, Distribution.expectation_map,
    Distribution.expectation_add, Distribution.expectation_mul_left, Distribution.expectation_const,
    whole, mul_one, ← Distribution.meanOf_eq_expectation]

/-- An affine change multiplies the spread by the square of its factor. -/
theorem spreadOf_map_affine (d : Distribution Value) (center : Rat) :
    spreadOf (d.map fun v ↦ scale * v + shift) (scale * center + shift) =
      scale ^ 2 * spreadOf d center := by
  have square (v : Value) : (scale * v + shift - (scale * center + shift)) *
      (scale * v + shift - (scale * center + shift)) =
        scale ^ 2 * ((v - center) * (v - center)) := by ring
  rw [Distribution.spreadOf_eq_expectation, Distribution.expectation_map]
  simp only [square]
  rw [Distribution.expectation_mul_left, ← Distribution.spreadOf_eq_expectation]

/-- Where the masses add up to one, an affine change with a positive factor relabels the locations
and multiplies the variance by the square of the factor. -/
theorem of?_map_affine (ascending : Table.Ascending d.outcomes) (whole : d.mass = 1)
    (positive : 0 < scale) :
    ∃ s, of? d = some s ∧ of? (d.map fun v ↦ scale * v + shift) = some
      { s.relabel (fun v ↦ scale * v + shift) with variance := scale ^ 2 * s.variance } := by
  have rising : StrictMono fun v : Value ↦ scale * v + shift := by
    intro v w hvw
    exact add_lt_add_left (mul_lt_mul_of_pos_left hvw positive) shift
  have listed : d.outcomes ≠ [] := by
    intro none
    rw [Distribution.mass, none] at whole
    exact zero_ne_one whole
  obtain ⟨least, first, _⟩ := Distribution.exists_min? ascending listed
  obtain ⟨greatest, last, _⟩ := Distribution.exists_max? ascending listed
  have first' := Distribution.min?_map rising ascending
  have last' := Distribution.max?_map rising ascending
  rw [first, Option.map_some] at first'
  rw [last, Option.map_some] at last'
  refine ⟨_, of?_eq_some first last, ?_⟩
  rw [of?_eq_some first' last', meanOf_map_affine scale shift whole, spreadOf_map_affine,
    modeOf_map rising ascending]
  simp only [percentile_map rising ascending]
  rfl

/-- Where the masses add up to one, moving the outcomes moves the locations. -/
theorem of?_map_add (ascending : Table.Ascending d.outcomes) (whole : d.mass = 1) {s : Statistics}
    (h : of? d = some s) : of? (d.map (· + shift)) = some (s.relabel (· + shift)) := by
  obtain ⟨s', h', moved⟩ := of?_map_affine 1 shift ascending whole one_pos
  obtain rfl := Option.some.inj (h.symm.trans h')
  simp only [one_mul, one_pow] at moved
  exact moved

end Affine

end Statistics
end DicePool
