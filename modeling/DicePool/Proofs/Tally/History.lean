import DicePool.Proofs.Distribution
import DicePool.Proofs.Tally.Convolution

/-!
# Histories of tallies

A tally is made from the empty one by recording outcomes, by collecting a list of them, and by
convolving tallies that are made so. Whatever its history, it is the tally of one list of records,
among which a convolution counts the sums of what was recorded for its parts. All tallies are
therefore well-formed, store for an outcome what was recorded for it, and have a distribution of
mass one unless they are empty.
-/

namespace DicePool.Tally

/-- How a tally is made. -/
inductive History (K : Type) where
  | start
  | record (h : History K) (k : K) (w : Nat)
  | recordOne (h : History K) (k : K)
  | collect (ks : List K)
  | convolve (g h : History K)

namespace History

variable {K : Type}

/-- The tally that a history ends with. -/
def tally [LT K] [DecidableLT K] [Add K] : History K → Tally K
  | start => .empty
  | record h k w => h.tally.record k w
  | recordOne h k => h.tally.recordOne k
  | collect ks => .ofList ks
  | convolve g h => g.tally.convolve h.tally

/-- All records of a history. -/
def records [Add K] : History K → List (K × Nat)
  | start => []
  | record h k w => h.records ++ [(k, w)]
  | recordOne h k => h.records ++ [(k, 1)]
  | collect ks => ks.map fun k ↦ (k, 1)
  | convolve g h => sums g.records h.records

variable [LT K] [DecidableLT K] [Std.Trichotomous (α := K) (· < ·)] [IsTrans K (· < ·)]
  [Std.Irrefl (α := K) (· < ·)] [Add K]

/-- The tally of a history is that of its records. -/
theorem tally_eq_ofRecords (h : History K) : h.tally = ofRecords h.records := by
  induction h with
  | start => rfl
  | record h k w ih => rw [tally, records, ofRecords_concat, ih]
  | recordOne h k ih => rw [tally, records, ofRecords_concat, ih, Tally.recordOne]
  | collect ks =>
    apply (wellFormed_ofList ks).eq_of_series (wellFormed_ofRecords _)
    rw [series_ofList, series_ofRecords, records, List.map_map]
    rfl
  | convolve g h ihg ihh => rw [tally, records, ihg, ihh, convolve_ofRecords]

/-- Every history ends with a well-formed tally. -/
theorem wellFormed_tally (h : History K) : h.tally.WellFormed := by
  rw [tally_eq_ofRecords]
  exact wellFormed_ofRecords h.records

/-- A history ends with a tally whose outcomes ascend, whose weights are positive and whose total is
their sum. An outcome weighs as much as was recorded for it; a convolution records the sums of all
stored outcomes and multiplies the totals. The distribution has the same outcomes, each with a
positive mass of at most one: it divides by a total that is not zero, and its masses add up to one,
unless there are no outcomes. -/
theorem tally_sound [DecidableEq K] (h : History K) :
    h.tally.WellFormed ∧
      (∀ k, h.tally.weight k = sumOf (Table.valuesWhere h.records fun x ↦ x = k)) ∧
      (∀ g : History K,
        (g.convolve h).tally = ofRecords (sums g.tally.counts h.tally.counts) ∧
          (g.convolve h).tally.total = g.tally.total * h.tally.total) ∧
      (Table.keys (Distribution.ofTally h.tally).outcomes = Table.keys h.tally.counts ∧
        ∀ k ∈ Table.keys h.tally.counts,
          0 < (Distribution.ofTally h.tally).probability k ∧
            (Distribution.ofTally h.tally).probability k ≤ 1) ∧
      (h.tally.counts = [] → (Distribution.ofTally h.tally).outcomes = []) ∧
      (h.tally.counts ≠ [] → h.tally.total ≠ 0 ∧ (Distribution.ofTally h.tally).mass = 1) := by
  have wellFormed := h.wellFormed_tally
  refine ⟨wellFormed, fun k ↦ ?_, fun g ↦ ⟨?_, rfl⟩, ⟨Distribution.keys_ofTally _, fun k hk ↦ ?_⟩,
    fun none ↦ ?_,
    fun some ↦ ⟨(wellFormed.total_pos some).ne', Distribution.mass_ofTally wellFormed some⟩⟩
  · rw [tally_eq_ofRecords, weight, weightWhere_ofRecords]
  · rw [← convolve_ofRecords, ofRecords_counts g.wellFormed_tally, ofRecords_counts wellFormed]
    rfl
  · rw [← Distribution.keys_ofTally] at hk
    obtain ⟨e, he, rfl⟩ := List.mem_map.mp hk
    rw [Distribution.probability_of_mem (Distribution.ascending_ofTally wellFormed) he]
    exact Distribution.mass_mem_ofTally wellFormed he
  · rw [Distribution.ofTally, none, List.map_nil]

/-- Two dice with a one and a two, of which one had a two recorded without weight and counts a one
twice: their sum is recorded six times, three times of which it is three. -/
theorem tally_sound_unevenPair :
    let even : History Value := .record (.collect [2, 1]) 2 0
    let uneven : History Value := .recordOne (.record .start 1 2) 2
    (even.convolve uneven).tally.WellFormed ∧ (even.convolve uneven).tally.weight 3 = 3 ∧
      (even.convolve uneven).tally.total = 6 ∧
      (Distribution.ofTally (even.convolve uneven).tally).mass = 1 := by
  intro even uneven
  obtain ⟨wellFormed, weights, _, _, _, whole⟩ := tally_sound (even.convolve uneven)
  obtain ⟨_, _, products, _⟩ := tally_sound uneven
  refine ⟨wellFormed, (weights 3).trans ?_, (products even).2.trans ?_, (whole ?_).2⟩
  · decide +kernel
  · decide +kernel
  · decide +kernel

end History

end DicePool.Tally
