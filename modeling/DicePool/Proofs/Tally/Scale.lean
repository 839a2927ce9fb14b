import DicePool.Proofs.Distribution
import DicePool.Proofs.Tally.Series

/-!
# Scaled tallies

Multiplying all weights of a tally by a common factor leaves its outcomes and its distribution.
Recording and convolution pass the factor on.
-/

namespace DicePool.Tally

variable {K : Type}

/-- The tally with all weights multiplied by a factor. -/
def scale (c : Nat) (t : Tally K) : Tally K :=
  ⟨Table.mapValues (c * ·) t.counts, c * t.total⟩

/-- The weights add up to a multiple. -/
private theorem sumOf_map_mul (c : Nat) (values : List Nat) :
    sumOf (values.map (c * ·)) = c * sumOf values := by
  induction values with
  | nil => rfl
  | cons w values ih => rw [List.map_cons, sumOf_cons, sumOf_cons, ih, Nat.mul_add]

/-- A set of outcomes has a multiple of its weight. -/
theorem weightWhere_scale (c : Nat) (t : Tally K) (p : K → Bool) :
    (t.scale c).weightWhere p = c * t.weightWhere p := by
  rw [weightWhere, scale, Table.valuesWhere_mapValues, sumOf_map_mul, weightWhere]

/-- A positive factor keeps a tally well-formed. -/
theorem WellFormed.scale [LT K] {t : Tally K} (h : t.WellFormed) {c : Nat} (hc : 0 < c) :
    (t.scale c).WellFormed := by
  obtain ⟨ascending, positive, total⟩ := h
  refine ⟨?_, ?_, ?_⟩
  · show (Table.keys (Table.mapValues _ t.counts)).Pairwise (· < ·)
    rw [Table.keys_mapValues]
    exact ascending
  · intro e he
    obtain ⟨e', he', rfl⟩ := List.mem_map.mp he
    exact Nat.mul_pos hc (positive e' he')
  · show c * t.total = sumOf (Table.values (Table.mapValues _ t.counts))
    rw [total, ← sumOf_map_mul, Table.values, Table.mapValues, List.map_map, Table.values,
      List.map_map]
    rfl

/-- A positive factor leaves the distribution. -/
theorem ofTally_scale (t : Tally K) {c : Nat} (hc : 0 < c) :
    Distribution.ofTally (t.scale c) = Distribution.ofTally t := by
  have factor : (c : Probability) ≠ 0 := by exact_mod_cast hc.ne'
  unfold Distribution.ofTally scale Table.mapValues
  rw [List.map_map]
  congr 1
  apply List.map_congr_left
  intro e _
  simp only [Function.comp_apply, Nat.cast_mul, mul_div_mul_left _ _ factor]

variable [LT K] [DecidableLT K]

/-- A record takes part in a positive factor. -/
theorem record_scale (t : Tally K) (k : K) (w : Nat) {c : Nat} (hc : 0 < c) :
    (t.scale c).record k (c * w) = (t.record k w).scale c := by
  unfold record
  by_cases hw : w = 0
  · rw [if_pos hw, if_pos (by rw [hw, Nat.mul_zero])]
  · have positive : c * w ≠ 0 := (Nat.mul_pos hc (Nat.pos_of_ne_zero hw)).ne'
    rw [if_neg hw, if_neg positive, scale, scale, Nat.mul_add]
    exact congrArg (Tally.mk · _)
      (Table.upsert_mapValues (fun v w ↦ Nat.mul_add c v w) k w t.counts)

/-- Records one after the other take part in a positive factor. -/
theorem foldr_record_scale {ι : Type} (f : ι → K) (w : ι → Nat) (items : List ι) {c : Nat}
    (hc : 0 < c) : items.foldr (fun i t ↦ t.record (f i) (c * w i)) empty =
      (items.foldr (fun i t ↦ t.record (f i) (w i)) empty).scale c := by
  induction items with
  | nil => rfl
  | cons i items ih => rw [List.foldr_cons, ih, record_scale _ _ _ hc, List.foldr_cons]

/-- Factors multiply in shifted counts. -/
private theorem shift_mapValues [Add K] (counts : Table K Nat) (k : K) (w a b : Nat) :
    shift (Table.mapValues (a * ·) counts) k (b * w) =
      Table.mapValues (a * b * ·) (shift counts k w) := by
  induction counts with
  | nil => rfl
  | cons e counts ih =>
    show shift ((e.1, a * e.2) :: Table.mapValues (a * ·) counts) k (b * w) = _
    rw [shift_cons, shift_cons, ih, Nat.mul_mul_mul_comm a e.2 b w]
    exact Table.upsert_mapValues (fun v w ↦ Nat.mul_add (a * b) v w) _ _ _

/-- Factors multiply in a convolution. -/
theorem convolve_scale [Add K] (s t : Tally K) (a b : Nat) :
    (s.scale a).convolve (t.scale b) = (s.convolve t).scale (a * b) := by
  have step (counts sums : Table K Nat) :
      (Table.mapValues (b * ·) counts).foldl (fun sums e ↦ Table.merge (· + ·) sums
          (shift (Table.mapValues (a * ·) s.counts) e.1 e.2))
          (Table.mapValues (a * b * ·) sums) =
        Table.mapValues (a * b * ·)
          (counts.foldl (fun sums e ↦ Table.merge (· + ·) sums (shift s.counts e.1 e.2)) sums) := by
    induction counts generalizing sums with
    | nil => rfl
    | cons e counts ih =>
      rw [List.foldl_cons, ← ih, ← Table.merge_mapValues fun v w ↦ Nat.mul_add (a * b) v w,
        ← shift_mapValues]
      rfl
  unfold convolve
  exact congrArg₂ Tally.mk (step t.counts []) (Nat.mul_mul_mul_comm a s.total b t.total)

/-- Independent dice multiply their factors. -/
theorem power_scale [Add K] (t : Tally K) (c : Nat) {n : Nat} (hn : 0 < n) :
    (t.scale c).power n = (t.power n).scale (c ^ n) := by
  induction n using power.induct with
  | case1 => exact absurd hn (Nat.lt_irrefl 0)
  | case2 => rw [power, power, Nat.pow_one]
  | case3 n ih => rw [power, power, ih (Nat.succ_pos n), convolve_scale, ← Nat.pow_succ]

end DicePool.Tally
