import DicePool.Expression.Parse
import DicePool.Proofs.Analysis.Unwrapped

/-!
# Mean and variance of independent dice

Integrating a quadratic over the series of a tally tells its mean and its variance. The series of a
sum of independent outcomes is a product, over which the integral is iterated, so that means add up
and variances add up. Dice that are all counted therefore have as many times the mean and the
variance of one die as there are dice, and the adjustment moves the mean alone.
-/

namespace DicePool

open AddMonoidAlgebra

/-- The sum of a quantity over the outcomes of a formal sum, each taken with its weight. -/
noncomputable def integrate {K : Type} (g : K → Rat) : AddMonoidAlgebra Nat K →+ Rat :=
  (Finsupp.liftAddHom fun k ↦
    (AddMonoidHom.mulLeft (g k)).comp (Nat.castAddMonoidHom Rat)).comp
      coeffAddEquiv.toAddMonoidHom

/-- A single term is taken with its weight. -/
@[simp] theorem integrate_single {K : Type} (g : K → Rat) (k : K) (w : Nat) :
    integrate g (single k w) = g k * w := by
  unfold integrate
  simp only [AddMonoidHom.comp_apply, AddEquiv.toAddMonoidHom_eq_coe, AddMonoidHom.coe_coe,
    coeffAddEquiv_apply, coeff_single, Finsupp.liftAddHom_apply_single]
  rfl

/-- The integral over a sum of independent outcomes is iterated. -/
theorem integrate_mul (g : Value → Rat) (s t : AddMonoidAlgebra Nat Value) :
    integrate g (s * t) = integrate (fun v ↦ integrate (fun w ↦ g (v + w)) t) s := by
  induction s using AddMonoidAlgebra.induction_linear with
  | zero => rw [zero_mul, map_zero, map_zero]
  | add s s' hs hs' => rw [add_mul, map_add, map_add, hs, hs']
  | single v m =>
    rw [integrate_single]
    induction t using AddMonoidAlgebra.induction_linear with
    | zero => rw [mul_zero, map_zero, map_zero, zero_mul]
    | add t t' ht ht' => rw [mul_add, map_add, map_add, ht, ht', add_mul]
    | single w n =>
      rw [single_mul_single, integrate_single, integrate_single, Nat.cast_mul]
      ring

/-- The expected quantity of an outcome of a tally is the integral over its series by the total. -/
theorem Distribution.expectation_ofTally_eq_integrate {K : Type} (t : Tally K) (g : K → Rat) :
    (ofTally t).expectation g = integrate g t.series / t.total := by
  rw [expectation_ofTally, Tally.series, map_list_sum, List.map_map]
  simp only [Function.comp_def, integrate_single]

/-- The mean of equally likely values. -/
def mean (values : List Value) : Rat := values.sum / values.length

/-- The mean squared distance of equally likely values from their mean. -/
def variance (values : List Value) : Rat := mean (values.map fun v ↦ (v - mean values) ^ 2)

private theorem sum_eq_mean_mul {values : List Value} (h : values ≠ []) :
    values.sum = mean values * values.length := by
  have size : (values.length : Rat) ≠ 0 := by exact_mod_cast (List.length_pos_iff.mpr h).ne'
  exact (div_mul_cancel₀ values.sum size).symm

/-- The mass, the mean and the variance of a formal sum of values, as told by the integrals of all
quadratics. -/
def HasMoments (s : AddMonoidAlgebra Nat Value) (mass mean variance : Rat) : Prop :=
  ∀ a b c : Rat, integrate (fun v ↦ a * v ^ 2 + b * v + c) s =
    mass * (a * (variance + mean ^ 2) + b * mean + c)

namespace HasMoments

variable {s t : AddMonoidAlgebra Nat Value} {m m' μ μ' σ σ' : Rat}

/-- Nothing is added up with certainty. -/
theorem one : HasMoments 1 1 0 0 := by
  intro a b c
  rw [one_def, integrate_single]
  ring

/-- Masses multiply, and means and variances add up. -/
theorem mul (hs : HasMoments s m μ σ) (ht : HasMoments t m' μ' σ') :
    HasMoments (s * t) (m * m') (μ + μ') (σ + σ') := by
  intro a b c
  have inner (v : Value) : integrate (fun w ↦ a * (v + w) ^ 2 + b * (v + w) + c) t =
      (m' * a) * v ^ 2 + (m' * (2 * a * μ' + b)) * v + m' * (a * (σ' + μ' ^ 2) + b * μ' + c) := by
    have expand (w : Value) : a * (v + w) ^ 2 + b * (v + w) + c =
        a * w ^ 2 + (2 * a * v + b) * w + (a * v ^ 2 + b * v + c) := by ring
    simp only [expand, ht a (2 * a * v + b) (a * v ^ 2 + b * v + c)]
    ring
  rw [integrate_mul]
  simp only [inner]
  rw [hs]
  ring

/-- A number of independent outcomes multiplies the mean and the variance. -/
theorem pow (h : HasMoments s m μ σ) (n : Nat) : HasMoments (s ^ n) (m ^ n) (n * μ) (n * σ) := by
  induction n with
  | zero => simpa using one
  | succ n ih =>
    have step := ih.mul h
    rw [← pow_succ, ← pow_succ] at step
    convert step using 1
    · push_cast
      ring
    · push_cast
      ring

/-- Equally likely values have their mean and their variance. -/
theorem of_values {values : List Value} (h : values ≠ []) :
    HasMoments (values.map fun v ↦ single v 1).sum values.length (mean values)
      (variance values) := by
  have first := sum_eq_mean_mul h
  have second := sum_eq_mean_mul (List.map_eq_nil_iff.not.mpr h :
    (values.map fun v ↦ (v - mean values) ^ 2) ≠ [])
  rw [← variance, List.length_map] at second
  intro a b c
  rw [map_list_sum, List.map_map]
  simp only [Function.comp_def, integrate_single, Nat.cast_one, mul_one]
  -- the squares are taken about the mean, as the variance takes them
  have center (v : Value) : a * v ^ 2 + b * v + c = (v - mean values) ^ 2 * a +
      v * (2 * a * mean values + b) + (c - a * mean values ^ 2) := by ring
  simp only [center, List.sum_map_add, List.sum_map_mul_right, List.map_id', List.map_const',
    List.sum_replicate, nsmul_eq_mul, first, second]
  ring

end HasMoments

namespace Distribution

variable {t : Tally Value} {μ σ : Rat}

/-- The expected quadratic of a moved outcome of a tally. -/
private theorem expectation_quadratic (h : HasMoments t.series t.total μ σ) (ht : t.total ≠ 0)
    (shift a b c : Rat) :
    ((ofTally t).map (· + shift)).expectation (fun v ↦ a * v ^ 2 + b * v + c) =
      a * (σ + (μ + shift) ^ 2) + b * (μ + shift) + c := by
  have total : (t.total : Rat) ≠ 0 := by exact_mod_cast ht
  have expand (v : Value) : a * (v + shift) ^ 2 + b * (v + shift) + c =
      a * v ^ 2 + (2 * a * shift + b) * v + (a * shift ^ 2 + b * shift + c) := by ring
  rw [expectation_map, expectation_ofTally_eq_integrate]
  simp only [expand]
  rw [h, mul_div_cancel_left₀ _ total]
  ring

/-- The mean of a moved tally is moved. -/
theorem meanOf_map_ofTally (h : HasMoments t.series t.total μ σ) (ht : t.total ≠ 0)
    (shift : Rat) : Statistics.meanOf ((ofTally t).map (· + shift)) = μ + shift := by
  have quadratic := expectation_quadratic h ht shift 0 1 0
  simp only [zero_mul, one_mul, zero_add, add_zero] at quadratic
  exact quadratic

/-- The variance of a moved tally stays. -/
theorem spreadOf_map_ofTally (h : HasMoments t.series t.total μ σ) (ht : t.total ≠ 0)
    (shift : Rat) : Statistics.spreadOf ((ofTally t).map (· + shift)) (μ + shift) = σ := by
  have square (v : Value) : (v - (μ + shift)) * (v - (μ + shift)) =
      1 * v ^ 2 + -2 * (μ + shift) * v + (μ + shift) ^ 2 := by ring
  have quadratic := expectation_quadratic h ht shift 1 (-2 * (μ + shift)) ((μ + shift) ^ 2)
  unfold Statistics.spreadOf
  simp only [square]
  refine quadratic.trans ?_
  ring

end Distribution

/-- The statistics of a distribution hold its mean and its spread about the mean. -/
theorem Statistics.mean_of_eq_some {d : Distribution Value} {statistics : Statistics}
    (h : Statistics.of? d = some statistics) :
    statistics.mean = meanOf d ∧ statistics.variance = spreadOf d (meanOf d) := by
  obtain ⟨least, _, h⟩ := Option.bind_eq_some_iff.mp h
  obtain ⟨greatest, _, h⟩ := Option.bind_eq_some_iff.mp h
  cases h
  exact ⟨rfl, rfl⟩

namespace Analysis

variable {spec : Spec} {numbers : List Value}

/-- An analysis has the distributions of its tallies, and the statistics of that of the totals. -/
theorem statistics_of_ofTallies? {t : Tallies} {analysis : Analysis}
    (h : ofTallies? spec t = some analysis) :
    analysis.distribution =
        (Distribution.ofTally t.totals).map (Value.plus · spec.modifiers.adjustment) ∧
      Statistics.of? analysis.distribution = some analysis.statistics ∧
      analysis.successes? = t.successes?.map Distribution.ofTally := by
  obtain ⟨statistics, hs, h⟩ := Option.bind_eq_some_iff.mp h
  cases h
  exact ⟨rfl, hs, rfl⟩

/-- Dice that are all counted, and do not wrap around, have as many times the moments of one as
there are dice. -/
theorem hasMoments_independent (unwrapped : spec.Unwrapped)
    (hn : spec.faces.numbers? = some numbers) (hc : 1 ≤ spec.count)
    (hs : spec.modifiers.selects = false) :
    HasMoments (independent spec (single spec numbers)).totals.series
      (independent spec (single spec numbers)).totals.total
      (spec.count * mean (numbers.map spec.modifiers.boost.exactly))
      (spec.count * variance (numbers.map spec.modifiers.boost.exactly)) := by
  have faces : numbers.map spec.modifiers.boost.exactly ≠ [] := by
    apply List.ne_nil_of_length_pos
    rw [List.length_map]
    exact FaceSet.length_pos_of_numbers? hn
  have total : ((independent spec (single spec numbers)).totals.total : Rat) =
      ((numbers.map spec.modifiers.boost.exactly).length : Rat) ^ spec.count := by
    rw [independent, @Tally.total_power Value _ _ Value.wrapping _ _ hc, Nat.cast_pow, single,
      Tally.total_ofList, List.length_map, List.length_map]
  have series : (independent spec (single spec numbers)).totals.series =
      (single spec numbers).series ^ spec.count := series_power_of_unwrapped unwrapped hn hc hs
  rw [total, series, single, Tally.series_ofList, unwrapped.map_apply hn]
  exact (HasMoments.of_values faces).pow spec.count

/-- At least one die that is drawn once, shows numbers and is counted has an exact analysis. If no
roll wraps around, its mean is that of the boosted faces times the dice, moved by the adjustment,
and its variance that of the boosted faces times the dice. -/
theorem exact_moments (hc : 1 ≤ spec.count) (hp : spec.Plain)
    (hs : spec.modifiers.selects = false) (hn : spec.faces.numbers? = some numbers)
    (limits : Limits) :
    ∃ analysis, exact spec limits = .ok analysis ∧
      (spec.Unwrapped →
        analysis.statistics.mean =
          spec.count * mean (numbers.map spec.modifiers.boost.exactly) +
            spec.modifiers.adjustment ∧
        analysis.statistics.variance =
          spec.count * variance (numbers.map spec.modifiers.boost.exactly)) := by
  have counted : spec.modifiers.selects = true →
      Pools.number (Table.keys (single spec numbers).counts).length spec.count ≤
        limits.outcomes := by
    rw [hs]
    nofun
  obtain ⟨analysis, analysed⟩ := exists_exact_ok hp hn hc counted
  refine ⟨analysis, analysed, fun unwrapped ↦ ?_⟩
  obtain ⟨t, tallied, made⟩ := (exact_eq_ok_iff hp hn).mp analysed
  obtain rfl : independent spec (single spec numbers) = t := by
    rw [tallies, hs] at tallied
    exact Except.ok.inj tallied
  obtain ⟨distribution, statistics, _⟩ := statistics_of_ofTallies? made
  obtain ⟨mean, variance⟩ := Statistics.mean_of_eq_some statistics
  have moments := hasMoments_independent unwrapped hn hc hs
  have total : (independent spec (single spec numbers)).totals.total ≠ 0 := by
    rw [independent, @Tally.total_power Value _ _ Value.wrapping _ _ hc, total_single hn]
    exact (Nat.pow_pos spec.faces.size_pos).ne'
  rw [distribution, map_plus_ofTally unwrapped (ofRolls_independent hn hc hs)] at mean variance
  have center := Distribution.meanOf_map_ofTally moments total spec.modifiers.adjustment
  refine ⟨mean.trans center, variance.trans ?_⟩
  exact (congrArg _ center).trans
    (Distribution.spreadOf_map_ofTally moments total spec.modifiers.adjustment)

private def doubledPair : Spec where
  count := 2
  faces := .cube
  modifiers := { boost? := some ⟨.multiply, 2⟩, adjust? := some 3 }

/-- Two dice that count double have the mean seven each and the variance 35/3 each; with three
added, their total has the mean 17 and the variance 70/3. -/
theorem exact_moments_doubledPair : ∃ analysis, exact doubledPair {} = .ok analysis ∧
    analysis.statistics.mean = 17 ∧ analysis.statistics.variance = 70 / 3 := by
  have numbers : doubledPair.faces.numbers? = some [1, 2, 3, 4, 5, 6] := by decide +kernel
  have center : mean ([1, 2, 3, 4, 5, 6].map doubledPair.modifiers.boost.exactly) = 7 := by
    decide +kernel
  have spread : variance ([1, 2, 3, 4, 5, 6].map doubledPair.modifiers.boost.exactly) = 35 / 3 := by
    decide +kernel
  obtain ⟨analysis, analysed, moments⟩ :=
    exact_moments (by decide) ⟨rfl, rfl⟩ rfl numbers {}
  have unwrapped : doubledPair.Unwrapped :=
    .of_light (d := 1) (w := 12) numbers (by decide +kernel) (by decide +kernel) (by decide)
      (by decide)
  obtain ⟨first, second⟩ := moments unwrapped
  rw [center] at first
  rw [spread] at second
  exact ⟨analysis, analysed, first.trans (by decide +kernel), second.trans (by decide +kernel)⟩

private def leastOrFive : Spec where
  count := 2
  faces := .leastOrFive
  modifiers := { boost? := some ⟨.add, 0⟩, adjust? := some 0, success? := some ⟨.greaterEqual, 5⟩ }

/-- Two dice that show the least integer or five: both together wrap around if neither is five, so
that the mean of their total is not twice the mean of one. -/
theorem not_forall_mean_eq :
    ∃ analysis, Expression.parse "2d{-9223372036854775808,5}" = .ok leastOrFive ∧
      exact leastOrFive {} = .ok analysis ∧
      analysis.statistics.mean = -4611686018427387899 ∧
      2 * mean ([-9223372036854775808, 5].map leastOrFive.modifiers.boost.exactly) =
        -9223372036854775803 := by
  obtain ⟨analysis, analysed, center⟩ := exists_analysis (r := exact leastOrFive {})
    (f := fun analysis ↦ analysis.statistics.mean) (b := -4611686018427387899) (by decide +kernel)
  exact ⟨analysis, by decide +kernel, analysed, center, by decide +kernel⟩

end Analysis

end DicePool
