import DicePool.Proofs.Analysis.Moments
import DicePool.Proofs.Duality
import DicePool.Proofs.Statistics.Relabel
import DicePool.Proofs.Tally.Convolution

/-!
# Adjusted totals

The adjustment is added to the outcomes of a tally that does not depend on it. Since the tally is
well-formed, its masses add up to one, and the statistics of the total move with the adjustment.
-/

namespace DicePool

namespace Analysis

variable {spec : Spec} {limits : Limits} {analysis : Analysis}

/-- A well-formed die makes a well-formed tally of totals. -/
theorem wellFormed_totals {die : Tally Value} (h : die.WellFormed) {t : Tallies}
    (tallied : tallies spec limits die = .ok t) : t.totals.WellFormed := by
  unfold tallies at tallied
  split at tallied
  · dsimp only [pooled] at tallied
    split at tallied
    · contradiction
    · rw [Pools.fold_eq_foldl] at tallied
      rw [← Except.ok.inj tallied]
      -- a visit records the total of its pool
      refine List.foldlRecOn _ _ (motive := fun t : Tallies ↦ t.totals.WellFormed)
        Tally.wellFormed_empty ?_
      intro t totals counts _
      exact totals.record _ _
  · rw [← Except.ok.inj tallied]
    exact @Tally.WellFormed.power Value _ _ _ _ Value.wrapping _ h spec.count

/-- An analysis is that of a well-formed tally of totals, with outcomes. -/
theorem exists_totals (h : exact spec limits = .ok analysis) :
    ∃ numbers t, spec.faces.numbers? = some numbers ∧
      tallies spec limits (single spec numbers) = .ok t ∧ ofTallies? spec t = some analysis ∧
      t.totals.WellFormed ∧ t.totals.counts ≠ [] := by
  obtain ⟨plain, numeric⟩ := plain_of_ok h
  have hn := FaceSet.numbers?_of_isNumeric numeric
  obtain ⟨t, tallied, made⟩ := (exact_eq_ok_iff plain hn).mp h
  refine ⟨_, t, hn, tallied, made, wellFormed_totals (Tally.wellFormed_ofList _) tallied, ?_⟩
  intro empty
  obtain ⟨distribution, statistics, _⟩ := statistics_of_ofTallies? made
  have without : analysis.distribution.outcomes = [] := by
    rw [distribution, Distribution.ofTally, empty]
    rfl
  rw [(Statistics.of?_eq_none_iff _).mpr without] at statistics
  exact Option.some_ne_none _ statistics.symm

/-- The statistics of an analysis are those of its distribution, of which the outcomes ascend. -/
theorem statistics_of_ok (h : exact spec limits = .ok analysis) :
    Statistics.of? analysis.distribution = some analysis.statistics ∧
      Table.Ascending analysis.distribution.outcomes := by
  obtain ⟨_, _, _, _, made, _⟩ := exists_totals h
  obtain ⟨distribution, statistics, _⟩ := statistics_of_ofTallies? made
  exact ⟨statistics, distribution ▸ Distribution.ascending_map _ _⟩

/-- The masses of the totals add up to one. -/
theorem mass_distribution (h : exact spec limits = .ok analysis) :
    analysis.distribution.mass = 1 := by
  obtain ⟨_, t, _, _, made, wellFormed, outcomes⟩ := exists_totals h
  rw [(statistics_of_ofTallies? made).1, Distribution.mass_map,
    Distribution.mass_ofTally wellFormed outcomes]

/-- Independent dice with narrow numbers have narrow totals. -/
private theorem narrow_power {die : Tally Value} (h : die.WellFormed)
    (narrow : ∀ v ∈ Table.keys die.counts, v.Narrow) (n : Nat) :
    ∀ v ∈ Table.keys (@Tally.power Value _ _ Value.wrapping die n).counts, v.Narrow := by
  induction n using Tally.power.induct with
  | case1 => exact narrow
  | case2 => exact narrow
  | case3 n _ =>
    intro v hv
    have before := @Tally.WellFormed.power Value _ _ _ _ Value.wrapping _ h (n + 1)
    obtain ⟨x, _, y, _, rfl⟩ :=
      @Tally.WellFormed.exists_add_of_mem_keys Value _ _ _ _ Value.wrapping _ _ _ before h _ hv
    exact Value.narrow_plus x y

/-- All totals before the adjustment are narrow. -/
theorem narrow_totals {numbers : List Value} {t : Tallies}
    (tallied : tallies spec limits (single spec numbers) = .ok t) :
    ∀ v ∈ Table.keys t.totals.counts, v.Narrow := by
  unfold tallies at tallied
  split at tallied
  · dsimp only [pooled] at tallied
    split at tallied
    · contradiction
    · rw [Pools.fold_eq_foldl] at tallied
      rw [← Except.ok.inj tallied]
      refine List.foldlRecOn _ _
        (motive := fun t : Tallies ↦ ∀ v ∈ Table.keys t.totals.counts, v.Narrow) nofun ?_
      intro t totals counts _ v hv
      obtain rfl | earlier := Tally.mem_keys_record hv
      · exact Value.narrow_sum _
      · exact totals v earlier
  · rw [← Except.ok.inj tallied]
    apply narrow_power (Tally.wellFormed_ofList _)
    intro v hv
    obtain ⟨w, _, rfl⟩ := List.mem_map.mp (Tally.mem_keys_ofList.mp hv)
    exact spec.modifiers.boost.narrow_apply w

/-- What has an analysis has one with any other adjustment. Both add their adjustment to the same
totals, and count the same successes. -/
theorem exact_readjust (h : exact spec limits = .ok analysis) (a : Int) :
    ∃ (totals : Distribution Value) (adjusted : Analysis),
      exact (spec.insert (.adjust a)) limits = .ok adjusted ∧
      (∀ v ∈ Table.keys totals.outcomes, v.Narrow) ∧
      analysis.distribution = totals.map (Value.plus · spec.modifiers.adjustment) ∧
      adjusted.distribution = totals.map (Value.plus · a) ∧
      adjusted.successes? = analysis.successes? := by
  obtain ⟨numbers, t, hn, tallied, made, _, outcomes⟩ := exists_totals h
  obtain ⟨distribution, _, successes⟩ := statistics_of_ofTallies? made
  have narrow : ∀ v ∈ Table.keys (Distribution.ofTally t.totals).outcomes, v.Narrow := by
    rw [Distribution.keys_ofTally]
    exact narrow_totals tallied
  have some : Statistics.of? ((Distribution.ofTally t.totals).map (Value.plus · a)) ≠ none := by
    intro none
    obtain ⟨e, he⟩ := List.exists_mem_of_ne_nil _ outcomes
    have moved := (Distribution.mem_keys_map (Value.plus · a) (Distribution.ofTally t.totals) _).mpr
      ⟨e.1, Distribution.keys_ofTally t.totals ▸ List.mem_map_of_mem he, rfl⟩
    rw [Table.keys, (Statistics.of?_eq_none_iff _).mp none] at moved
    exact absurd moved List.not_mem_nil
  obtain ⟨statistics, summed⟩ := Option.ne_none_iff_exists'.mp some
  -- neither the dice nor what is counted of them depends on the adjustment
  have plain : (spec.insert (.adjust a)).Plain := (plain_of_ok h).1
  have tallied' : tallies (spec.insert (.adjust a)) limits
      (single (spec.insert (.adjust a)) numbers) = .ok t := tallied
  exact ⟨Distribution.ofTally t.totals, _, (exact_eq_ok_iff plain hn).mpr
    ⟨t, tallied', Option.bind_eq_some_iff.mpr ⟨_, summed, rfl⟩⟩, narrow, distribution, rfl,
    successes.symm⟩

/-- Narrow totals that are adjusted by zero are adjusted as they were. -/
private theorem map_plus_zero {totals : Distribution Value}
    (narrow : ∀ v ∈ Table.keys totals.outcomes, v.Narrow) (a : Int) :
    (totals.map (Value.plus · (0 : Int))).map (Value.plus · a) = totals.map (Value.plus · a) := by
  rw [Distribution.map_map]
  apply Distribution.map_congr
  intro v hv
  rw [Int.cast_zero, Value.plus_zero (narrow v hv)]

/-- An analysis relabels the unadjusted totals by the adjustment. -/
theorem exists_unadjusted (h : exact spec limits = .ok analysis) :
    ∃ unadjusted, exact (spec.insert (.adjust 0)) limits = .ok unadjusted ∧
      analysis.distribution =
        unadjusted.distribution.map (Value.plus · spec.modifiers.adjustment) := by
  obtain ⟨totals, unadjusted, succeeds, narrow, distribution, moved, _⟩ := exact_readjust h 0
  exact ⟨unadjusted, succeeds, by rw [moved, map_plus_zero narrow, distribution]⟩

/-- What has an analysis without an adjustment has one with any. The adjustment is added to the
outcomes, and leaves the successes. -/
theorem exact_insert_adjust (h : exact spec limits = .ok analysis)
    (unadjusted : spec.modifiers.adjustment = 0) (a : Int) :
    ∃ adjusted, exact (spec.insert (.adjust a)) limits = .ok adjusted ∧
      adjusted.distribution = analysis.distribution.map (Value.plus · a) ∧
      adjusted.successes? = analysis.successes? := by
  obtain ⟨totals, adjusted, succeeds, narrow, distribution, moved, successes⟩ := exact_readjust h a
  rw [unadjusted] at distribution
  exact ⟨adjusted, succeeds, by rw [moved, distribution, map_plus_zero narrow], successes⟩

/-- Where no roll with an adjustment wraps around, it is added exactly to the outcomes without. -/
theorem plus_eq_of_unwrapped (hc : 1 ≤ spec.count) (h : exact spec limits = .ok analysis)
    (unadjusted : spec.modifiers.adjustment = 0) {a : Int}
    (unwrapped : (spec.insert (.adjust a)).Unwrapped) :
    ∀ v ∈ Table.keys analysis.distribution.outcomes, Value.plus v a = v + (a : Value) := by
  obtain ⟨t, made⟩ := isExact_of_ok hc h
  intro v hv
  obtain ⟨x, hx, rfl⟩ := (made.mem_keys_iff v).mp hv
  have length : (List.ofFn x).length = spec.count := List.length_ofFn
  have within := within_of_mem_rolls hx
  generalize List.ofFn x = answers at length within
  have plain : spec.totalOf answers = Value.sum (spec.kept answers) := by
    rw [Spec.totalOf, unadjusted, Int.cast_zero, Value.plus_zero (Value.narrow_sum _)]
  obtain ⟨sum, total⟩ := unwrapped.sum_kept length within
  rw [plain]
  exact total.trans (congrArg (· + (a : Value)) sum.symm)

/-- An affine change of the outcomes with a positive factor, where the masses add up to one and the
change is exact, is made to all locations and multiplies the variance by the square of the factor.
So an adjustment of what has an analysis without one, if it is added exactly to every outcome, is
added to all locations and leaves the variance; it leaves the successes in any case. -/
theorem statistics_equivariant (d : Distribution Value) (spec : Spec) (limits : Limits) :
    (Table.Ascending d.outcomes → d.mass = 1 → ∀ scale shift : Value, 0 < scale →
      (∀ v ∈ Table.keys d.outcomes, Value.plus (Value.times scale v) shift = scale * v + shift) →
      ∃ s, Statistics.of? d = some s ∧
        Statistics.of? (d.map fun v ↦ Value.plus (Value.times scale v) shift) = some
          { s.relabel (fun v ↦ scale * v + shift) with variance := scale ^ 2 * s.variance }) ∧
    ∀ analysis, exact spec limits = .ok analysis → spec.modifiers.adjustment = 0 →
      ∀ a : Int, ∃ adjusted, exact (spec.insert (.adjust a)) limits = .ok adjusted ∧
        adjusted.successes? = analysis.successes? ∧
        ((∀ v ∈ Table.keys analysis.distribution.outcomes, Value.plus v a = v + (a : Value)) →
          adjusted.statistics = analysis.statistics.relabel (· + (a : Value)) ∧
          adjusted.statistics.variance = analysis.statistics.variance) := by
  constructor
  · intro ascending whole scale shift positive unwrapped
    rw [Distribution.map_congr unwrapped]
    exact Statistics.of?_map_affine scale shift ascending whole positive
  · intro analysis h unadjusted a
    obtain ⟨adjusted, succeeds, distribution, successes⟩ := exact_insert_adjust h unadjusted a
    refine ⟨adjusted, succeeds, successes, fun unwrapped ↦ ?_⟩
    obtain ⟨statistics, ascending⟩ := statistics_of_ok h
    have summed := (statistics_of_ok succeeds).1
    rw [distribution, Distribution.map_congr unwrapped,
      Statistics.of?_map_add _ ascending (mass_distribution h) statistics] at summed
    have moved := (Option.some.inj summed).symm
    exact ⟨moved, by rw [moved, Statistics.relabel]⟩

/-- A distribution with a negative mass. -/
private def owed : Distribution Value := ⟨[(-1, -1 / 2), (0, 1), (2, 1 / 2)]⟩

/-- Twice as far and three further on, outcomes of which one has a negative mass have the statistics
that they had, twice as far and three further on; two dice of which the higher counts have them five
further on if five is added. -/
theorem statistics_equivariant_owed :
    (∃ s, Statistics.of? owed = some s ∧
      Statistics.of? (owed.map fun v ↦ Value.plus (Value.times 2 v) 3) = some
        { s.relabel (fun v ↦ 2 * v + 3) with variance := 2 ^ 2 * s.variance }) ∧
    ∃ analysis adjusted, exact highestOfTwo {} = .ok analysis ∧
      exact (highestOfTwo.insert (.adjust 5)) {} = .ok adjusted ∧
      adjusted.statistics = analysis.statistics.relabel (· + ((5 : Int) : Value)) ∧
      adjusted.successes? = analysis.successes? := by
  obtain ⟨changed, moved⟩ := statistics_equivariant owed highestOfTwo {}
  have ascending : Table.Ascending owed.outcomes := by decide +kernel
  have whole : owed.mass = 1 := by decide +kernel
  obtain ⟨analysis, h⟩ : ∃ analysis, exact highestOfTwo {} = .ok analysis :=
    exists_exact_ok ⟨rfl, rfl⟩ rfl (by decide) fun _ ↦ by decide +kernel
  obtain ⟨adjusted, h', successes, statistics⟩ := moved analysis h rfl 5
  have unwrapped : (highestOfTwo.insert (.adjust 5)).Unwrapped :=
    .of_light (d := 1) (w := 2) rfl (by decide +kernel) (by decide +kernel) (by decide) (by decide)
  have exact := plus_eq_of_unwrapped (by decide) h rfl unwrapped
  exact ⟨changed ascending whole 2 3 (by decide +kernel) (by decide +kernel),
    analysis, adjusted, h, h', (statistics exact).1, successes⟩

private def oneLeastOrFive : Spec where
  count := 1
  faces := .leastOrFive
  modifiers := { boost? := some ⟨.add, 0⟩, adjust? := some 0, success? := some ⟨.greaterEqual, 5⟩ }

/-- One taken off a die that shows the least integer or five makes the least integer the largest:
the least total is four, and not one less than before. -/
theorem not_forall_min_readjusted :
    ∃ analysis adjusted,
      Expression.parse "1d{-9223372036854775808,5}" = .ok oneLeastOrFive ∧
      Expression.parse "1d{-9223372036854775808,5}=-1" =
        .ok (oneLeastOrFive.insert (.adjust (-1))) ∧
      exact oneLeastOrFive {} = .ok analysis ∧
      exact (oneLeastOrFive.insert (.adjust (-1))) {} = .ok adjusted ∧
      analysis.statistics.min = -9223372036854775808 ∧ adjusted.statistics.min = 4 := by
  obtain ⟨analysis, h, least⟩ := exists_analysis (r := exact oneLeastOrFive {})
    (f := fun analysis ↦ analysis.statistics.min) (b := -9223372036854775808) (by decide +kernel)
  obtain ⟨adjusted, h', least'⟩ :=
    exists_analysis (r := exact (oneLeastOrFive.insert (.adjust (-1))) {})
      (f := fun analysis ↦ analysis.statistics.min) (b := 4) (by decide +kernel)
  exact ⟨analysis, adjusted, by decide +kernel, by decide +kernel, h, h', least, least'⟩

end Analysis

end DicePool
