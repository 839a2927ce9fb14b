import DicePool.Proofs.Statistics.Order
import Mathlib.Tactic.Ring

/-!
# What statistics say

The statistics of a distribution with outcomes: its extremes, modes and percentiles in ascending
order, and its mean. If the masses add up to one, the percentiles are quantiles, and the variance is
the mean of the squares less the square of the mean; if in addition no mass is negative, the mean
lies between the extremes and the variance is not negative.
-/

namespace DicePool

namespace Distribution

variable {d : Distribution Value}

/-- The mean is the expected outcome. -/
theorem meanOf_eq_expectation (d : Distribution Value) :
    Statistics.meanOf d = d.expectation fun v ↦ v := rfl

/-- The spread is the expected square of the distance. -/
theorem spreadOf_eq_expectation (d : Distribution Value) (center : Rat) :
    Statistics.spreadOf d center = d.expectation fun v ↦ (v - center) * (v - center) := rfl

/-- Where masses that are not negative add up to one, the mean lies between the extremes. -/
theorem mean_mem_bounds (nonneg : ∀ e ∈ d.outcomes, 0 ≤ e.2) (whole : d.mass = 1)
    {least greatest : Value} (bottom : IsLeast {x | x ∈ Table.keys d.outcomes} least)
    (top : IsGreatest {x | x ∈ Table.keys d.outcomes} greatest) :
    least ≤ Statistics.meanOf d ∧ Statistics.meanOf d ≤ greatest := by
  have constant (c : Rat) : (d.expectation fun _ ↦ c) = c := by
    rw [expectation_const, whole, mul_one]
  rw [meanOf_eq_expectation]
  constructor
  · calc least = d.expectation fun _ ↦ least := (constant least).symm
      _ ≤ d.expectation fun v ↦ v := expectation_mono nonneg fun x hx ↦ bottom.2 hx
  · calc d.expectation (fun v ↦ v)
        ≤ d.expectation fun _ ↦ greatest := expectation_mono nonneg fun x hx ↦ top.2 hx
      _ = greatest := constant greatest

/-- Where no mass is negative, no spread is. -/
theorem spreadOf_nonneg (nonneg : ∀ e ∈ d.outcomes, 0 ≤ e.2) (center : Rat) :
    0 ≤ Statistics.spreadOf d center := by
  have zero : (d.expectation fun _ ↦ 0) = 0 := by rw [expectation_const, zero_mul]
  rw [← zero, spreadOf_eq_expectation]
  exact expectation_mono nonneg fun x _ ↦ mul_self_nonneg (x - center)

/-- Where the masses add up to one, the spread about the mean is the mean square less the square of
the mean. -/
theorem spreadOf_meanOf (whole : d.mass = 1) : Statistics.spreadOf d (Statistics.meanOf d) =
    d.expectation (fun v ↦ v ^ 2) - Statistics.meanOf d ^ 2 := by
  have square (v c : Rat) : (v - c) * (v - c) = v ^ 2 + (-2 * c * v + c ^ 2) := by ring
  rw [spreadOf_eq_expectation]
  simp only [square]
  rw [expectation_add, expectation_add, expectation_mul_left, expectation_const, whole,
    ← meanOf_eq_expectation]
  ring

end Distribution

namespace Statistics

/-- The statistics of a distribution with a first and a last outcome. -/
theorem of?_eq_some {d : Distribution Value} {least greatest : Value} (first : d.min? = some least)
    (last : d.max? = some greatest) : of? d = some {
      mean := meanOf d
      variance := spreadOf d (meanOf d)
      min := least
      max := greatest
      mode := modeOf d
      median := percentile d 50 greatest
      percentiles := [25, 50, 75].map fun p ↦ (p, percentile d p greatest) } := by
  rw [of?, first, last]
  rfl

/-- A distribution with outcomes has statistics. The modes are the outcomes of greatest mass; the
percentiles are outcomes between the extremes and in order, and the median is the fiftieth. If the
masses add up to one, every percentile is the least outcome up to which there is its share of the
mass, and the variance is the mean square less the square of the mean; if moreover no mass is
negative, the mean is between the extremes and the variance is not negative. -/
theorem of?_sound {d : Distribution Value} (ascending : Table.Ascending d.outcomes)
    (listed : d.outcomes ≠ []) :
    ∃ s p25 p75, of? d = some s ∧
      (IsLeast {x | x ∈ Table.keys d.outcomes} s.min ∧
        IsGreatest {x | x ∈ Table.keys d.outcomes} s.max ∧ s.mean = d.expectation fun v ↦ v) ∧
      (s.mode ≠ [] ∧ s.mode.Pairwise (· < ·) ∧
        ∀ v, v ∈ s.mode ↔ v ∈ Table.keys d.outcomes ∧
          ∀ w ∈ Table.keys d.outcomes, d.probability w ≤ d.probability v) ∧
      s.percentiles = [(25, p25), (50, s.median), (75, p75)] ∧
      (s.min ≤ p25 ∧ p25 ≤ s.median ∧ s.median ≤ p75 ∧ p75 ≤ s.max) ∧
      (∀ e ∈ s.percentiles, e.2 ∈ Table.keys d.outcomes) ∧
      (d.mass = 1 →
        (∀ e ∈ s.percentiles, d.IsQuantile (e.1 / 100) e.2 ∧
          d.massWhere (· < e.2) < (e.1 / 100 : Rat)) ∧
        s.variance = d.expectation (fun v ↦ v ^ 2) - s.mean ^ 2 ∧
        ((∀ e ∈ d.outcomes, 0 ≤ e.2) →
          (s.min ≤ s.mean ∧ s.mean ≤ s.max) ∧ 0 ≤ s.variance)) := by
  obtain ⟨least, first, bottom⟩ := Distribution.exists_min? ascending listed
  obtain ⟨greatest, last, top⟩ := Distribution.exists_max? ascending listed
  have outcome (percent : Nat) : percentile d percent greatest ∈ Table.keys d.outcomes :=
    percentile_mem ascending top
  have mono {percent percent' : Nat} (le : percent ≤ percent') :
      percentile d percent greatest ≤ percentile d percent' greatest :=
    percentile_mono ascending top le
  refine ⟨_, percentile d 25 greatest, percentile d 75 greatest, of?_eq_some first last,
    ⟨bottom, top, rfl⟩,
    ⟨modeOf_ne_nil listed, pairwise_modeOf ascending listed, mem_modeOf_iff ascending listed⟩, rfl,
    ⟨bottom.2 (outcome 25), mono (by decide), mono (by decide), top.2 (outcome 75)⟩, ?_, ?_⟩
  · intro e he
    obtain ⟨percent, _, rfl⟩ := List.mem_map.mp he
    exact outcome percent
  · intro whole
    refine ⟨fun e he ↦ ?_, Distribution.spreadOf_meanOf whole, fun nonneg ↦
      ⟨Distribution.mean_mem_bounds nonneg whole bottom top,
        Distribution.spreadOf_nonneg nonneg _⟩⟩
    obtain ⟨percent, listed, rfl⟩ := List.mem_map.mp he
    have range : ∀ percent ∈ [25, 50, 75], 0 < percent ∧ percent ≤ 100 := by decide
    obtain ⟨some, within⟩ := range percent listed
    have quantile : d.IsQuantile (percent / 100) (percentile d percent greatest) :=
      isQuantile_percentile ascending top whole within
    have positive : (0 : Rat) < percent / 100 :=
      div_pos (by exact_mod_cast some) (by decide)
    exact ⟨quantile, quantile.massWhere_lt positive⟩

/-- A distribution with a gap, an outcome without mass, and two modes. -/
private def gapped : Distribution Value := ⟨[(-1, 1 / 4), (0, 0), (1 / 2, 3 / 8), (3, 3 / 8)]⟩

/-- Of a distribution with a gap and two modes, the quartiles ascend and the mean is between the
extremes. -/
theorem of?_sound_gapped : ∃ s p25 p75, of? gapped = some s ∧
    s.percentiles = [(25, p25), (50, s.median), (75, p75)] ∧ s.mode ≠ [] ∧
    gapped.IsQuantile ((25 : Nat) / 100) p25 ∧ p25 ≤ s.median ∧ s.median ≤ p75 ∧
    (s.min ≤ s.mean ∧ s.mean ≤ s.max) ∧ 0 ≤ s.variance := by
  have ascending : Table.Ascending gapped.outcomes := by decide +kernel
  have whole : gapped.mass = 1 := by decide +kernel
  have nonneg : ∀ e ∈ gapped.outcomes, 0 ≤ e.2 := by decide +kernel
  obtain ⟨s, p25, p75, summary, _, modes, percentiles, order, _, rest⟩ :=
    of?_sound ascending (List.cons_ne_nil _ _)
  obtain ⟨quantiles, _, bounds⟩ := rest whole
  have first : (25, p25) ∈ s.percentiles := by
    rw [percentiles]
    exact List.mem_cons_self
  exact ⟨s, p25, p75, summary, percentiles, modes.1, (quantiles _ first).1, order.2.1, order.2.2.1,
    bounds nonneg⟩

end Statistics
end DicePool
