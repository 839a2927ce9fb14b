import DicePool.Proofs.Analysis.Adjustments

/-!
# Relabelling as a pushforward

A relabelled distribution gives every set of labels the mass of the outcomes that get them, whatever
the masses are and however many outcomes share a label. So relabelling composes, and an exact
analysis, which checks its totals after the adjustment, passes with the mass of the unadjusted
totals that pass once they are adjusted.
-/

namespace DicePool.Analysis

variable {spec : Spec} {limits : Limits} {analysis : Analysis}

/-- An analysis passes with the mass of the totals that meet the check, if there is one. -/
theorem pass?_of_ofTallies? {t : Tallies} (h : ofTallies? spec t = some analysis) :
    analysis.pass? =
      spec.modifiers.totalCheck?.map fun c ↦ analysis.distribution.massWhere c.holds := by
  obtain ⟨statistics, _, h⟩ := Option.bind_eq_some_iff.mp h
  cases h
  rfl

/-- Relabelling gives every set of labels the mass of the outcomes that get them. The labels of the
outcomes are listed, in ascending order, and no others; relabelling twice is relabelling by both
labellings at once; and no mass is lost. So the totals of an exact analysis are the unadjusted ones
relabelled by the adjustment, and the probability of passing is the mass of the unadjusted totals
that meet the check when they are adjusted. -/
theorem relabelling_pushes_forward :
    (∀ (K J : Type) [LinearOrder J] (d : Distribution K) (f : K → J),
      (∀ p : J → Bool, (d.map f).massWhere p = d.massWhere fun k ↦ p (f k)) ∧
      Table.Ascending (d.map f).outcomes ∧
      (∀ j, j ∈ Table.keys (d.map f).outcomes ↔ ∃ k ∈ Table.keys d.outcomes, f k = j) ∧
      (∀ (L : Type) [LinearOrder L] (g : J → L), (d.map f).map g = d.map fun k ↦ g (f k)) ∧
      (d.map f).mass = d.mass) ∧
    ∀ spec limits analysis, exact spec limits = .ok analysis →
      ∃ unadjusted, exact (spec.insert (.adjust 0)) limits = .ok unadjusted ∧
        analysis.distribution =
          unadjusted.distribution.map (Value.plus · spec.modifiers.adjustment) ∧
        analysis.pass? = spec.modifiers.totalCheck?.map fun c ↦
          unadjusted.distribution.massWhere fun v ↦
            c.holds (Value.plus v spec.modifiers.adjustment) := by
  constructor
  · intro K J _ d f
    exact ⟨Distribution.massWhere_map f d, Distribution.ascending_map f d,
      Distribution.mem_keys_map f d, fun L _ g ↦ Distribution.map_map f g d,
      Distribution.mass_map f d⟩
  · intro spec limits analysis h
    obtain ⟨unadjusted, succeeds, distribution⟩ := exists_unadjusted h
    obtain ⟨_, t, _, _, made, _⟩ := exists_totals h
    refine ⟨unadjusted, succeeds, distribution, ?_⟩
    rw [pass?_of_ofTallies? made, distribution]
    simp only [Distribution.massWhere_map]

/-- A distribution with a negative mass and one of zero. -/
private def ledger : Distribution Value := ⟨[(-2, 1 / 2), (-1, -1 / 4), (1, 3 / 4), (3, 0)]⟩

/-- The higher of two dice with two taken off, checked for zero and above. -/
private def handicapped : Spec :=
  { highestOfTwo with
    modifiers := { highestOfTwo.modifiers with
      adjust? := some (-2)
      totalCheck? := some ⟨.greaterEqual, 0⟩ } }

/-- Squares with the sign turned list four outcomes in the other order, and two of them together.
The higher of two dice reaches zero after two are taken off where it was two. -/
theorem relabelling_pushes_forward_handicapped :
    ((ledger.map fun v ↦ -(v * v)).outcomes = [(-9, 0), (-4, 1 / 2), (-1, 1 / 2)] ∧
      (ledger.map fun v ↦ -(v * v)).massWhere (fun v ↦ v = -1) =
        ledger.massWhere fun v ↦ -(v * v) = -1) ∧
    ∃ analysis unadjusted, exact handicapped {} = .ok analysis ∧
      exact (handicapped.insert (.adjust 0)) {} = .ok unadjusted ∧
      analysis.pass? = some (unadjusted.distribution.massWhere fun v ↦
        (⟨.greaterEqual, 0⟩ : Condition).holds (Value.plus v (-2 : Int))) := by
  obtain ⟨pushed, checked⟩ := relabelling_pushes_forward
  obtain ⟨analysis, h⟩ : ∃ analysis, exact handicapped {} = .ok analysis :=
    exists_exact_ok ⟨rfl, rfl⟩ rfl (by decide) fun _ ↦ by decide +kernel
  obtain ⟨unadjusted, succeeds, _, pass⟩ := checked handicapped {} analysis h
  exact ⟨⟨by decide +kernel, (pushed Value Value ledger fun v ↦ -(v * v)).1 _⟩,
    analysis, unadjusted, h, succeeds, pass⟩

end DicePool.Analysis
