import DicePool.Proofs.Tally.Series
import DicePool.Value
import Mathlib.Algebra.Order.Ring.Rat

/-!
# Convolution of tallies

Merging shifted counts leaves a well-formed tally, the one that records every sum of two outcomes
with the product of their weights, however outcomes are added. Well-formed tallies are told apart by
their series, and convolution multiplies series: where sums can be reordered and regrouped,
convolution is commutative and associative, and a certain zero is neutral.
-/

namespace DicePool.Tally

open AddMonoidAlgebra

variable {K : Type}

/-- The records of all sums of two outcomes, each with the product of the weights. -/
def sums [Add K] (records records' : List (K × Nat)) : List (K × Nat) :=
  records.flatMap fun r ↦ records'.map fun r' ↦ (r.1 + r'.1, r.2 * r'.2)

section Products

variable [Add K]

/-- The terms of all sums multiply. -/
theorem sum_map_sums (records records' : List (K × Nat)) :
    ((sums records records').map fun r ↦ single r.1 r.2).sum =
      (records.map fun r ↦ single r.1 r.2).sum * (records'.map fun r ↦ single r.1 r.2).sum := by
  induction records with
  | nil => exact (zero_mul _).symm
  | cons r records ih =>
    have first : ((records'.map fun r' ↦ (r.1 + r'.1, r.2 * r'.2)).map fun r ↦ single r.1 r.2).sum =
        single r.1 r.2 * (records'.map fun r ↦ single r.1 r.2).sum := by
      rw [List.map_map, ← List.sum_map_mul_left]
      simp only [Function.comp_def, single_mul_single]
    rw [sums, List.flatMap_cons, List.map_append, List.sum_append, first, List.map_cons,
      List.sum_cons, add_mul]
    exact congrArg _ ih

/-- A product of series weighs the product of their weights. -/
theorem weigh_true_mul (s t : AddMonoidAlgebra Nat K) :
    weigh (fun _ ↦ true) (s * t) = weigh (fun _ ↦ true) s * weigh (fun _ ↦ true) t := by
  induction s using AddMonoidAlgebra.induction_linear with
  | zero => rw [zero_mul, map_zero, zero_mul]
  | add s s' hs hs' => rw [add_mul, map_add, map_add, hs, hs', Nat.add_mul]
  | single k m =>
    induction t using AddMonoidAlgebra.induction_linear with
    | zero => rw [mul_zero, map_zero, mul_zero]
    | add t t' ht ht' => rw [mul_add, map_add, map_add, ht, ht', Nat.mul_add]
    | single l n => simp only [single_mul_single, weigh_single, if_true]

end Products

variable [LT K]

/-- Well-formed tallies are told apart by their series. -/
theorem WellFormed.eq_of_series [IsTrans K (· < ·)] [Std.Irrefl (α := K) (· < ·)] {t t' : Tally K}
    (h : t.WellFormed) (h' : t'.WellFormed) (series : t.series = t'.series) : t = t' := by
  classical
  apply h.eq_of_weight h'
  intro k
  rw [weight, weight, weightWhere_eq, weightWhere_eq, series]

/-- The tally of an outcome that is certain. -/
def certain (k : K) : Tally K := ⟨[(k, 1)], 1⟩

/-- A certain outcome is a well-formed tally. -/
theorem wellFormed_certain (k : K) : (certain k).WellFormed := by
  refine ⟨List.pairwise_singleton _ k, fun e he ↦ ?_, rfl⟩
  rw [List.mem_singleton.mp he]
  exact Nat.one_pos

variable [DecidableLT K] [Std.Trichotomous (α := K) (· < ·)] [IsTrans K (· < ·)]

/-- The tally of records made one after the other. -/
def ofRecords (records : List (K × Nat)) : Tally K :=
  records.foldl (fun t r ↦ t.record r.1 r.2) empty

omit [Std.Trichotomous (α := K) (· < ·)] [IsTrans K (· < ·)] in
/-- The last record is made last. -/
theorem ofRecords_concat (records : List (K × Nat)) (k : K) (w : Nat) :
    ofRecords (records ++ [(k, w)]) = (ofRecords records).record k w := by
  rw [ofRecords, List.foldl_append]
  rfl

/-- Records make a well-formed tally. -/
theorem wellFormed_ofRecords (records : List (K × Nat)) : (ofRecords records).WellFormed := by
  refine List.foldlRecOn _ _ (motive := WellFormed) wellFormed_empty ?_
  intro t h r _
  exact h.record r.1 r.2

omit [Std.Trichotomous (α := K) (· < ·)] [IsTrans K (· < ·)] in
/-- Only outcomes that are recorded are stored. -/
theorem mem_keys_ofRecords {records : List (K × Nat)} {k : K}
    (h : k ∈ Table.keys (ofRecords records).counts) : k ∈ Table.keys records := by
  induction records using List.reverseRecOn with
  | nil => exact h
  | append_singleton records r ih =>
    rw [ofRecords_concat] at h
    rw [Table.keys, List.map_append, List.mem_append]
    obtain rfl | earlier := mem_keys_record h
    · exact .inr (List.mem_singleton_self _)
    · exact .inl (ih earlier)

omit [IsTrans K (· < ·)] in
/-- Every record is a term. -/
theorem series_ofRecords (records : List (K × Nat)) :
    (ofRecords records).series = (records.map fun r ↦ single r.1 r.2).sum := by
  rw [ofRecords, series_foldl_record Prod.fst Prod.snd, series_empty, zero_add]

omit [IsTrans K (· < ·)] in
/-- A set of outcomes weighs as much as is recorded for them. -/
theorem weightWhere_ofRecords (records : List (K × Nat)) (p : K → Bool) :
    (ofRecords records).weightWhere p = sumOf (Table.valuesWhere records p) := by
  have listed : sumOf (Table.valuesWhere records p) = _ := weightWhere_eq ⟨records, 0⟩ p
  rw [weightWhere_eq, series_ofRecords, listed, series]

/-- A well-formed tally is made by recording what it stores. -/
theorem ofRecords_counts [Std.Irrefl (α := K) (· < ·)] {t : Tally K} (h : t.WellFormed) :
    ofRecords t.counts = t :=
  (wellFormed_ofRecords t.counts).eq_of_series h (series_ofRecords t.counts)

section Convolution

section Sums

variable [Add K]

omit [Std.Trichotomous (α := K) (· < ·)] in
/-- Shifted counts ascend. -/
theorem ascending_shift (counts : Table K Nat) (k : K) (w : Nat) :
    Table.Ascending (shift counts k w) := by
  rw [shift_eq]
  refine List.foldrRecOn _ _ (motive := Table.Ascending) List.Pairwise.nil ?_
  intro t ascending e _
  exact Table.ascending_upsert _ _ _ ascending

/-- Convolution keeps tallies well-formed. -/
theorem WellFormed.convolve {a b : Tally K} (ha : a.WellFormed) (hb : b.WellFormed) :
    (a.convolve b).WellFormed := by
  refine ⟨?_, Positive.convolve ha.2.1 hb.2.1, ?_⟩
  · refine List.foldlRecOn _ _ (motive := Table.Ascending) List.Pairwise.nil ?_
    intro sums ascending e _
    exact Table.ascending_merge _ ascending (ascending_shift a.counts e.1 e.2)
  · calc a.total * b.total
        = weigh (fun _ ↦ true) (a.series * b.series) := by
          rw [weigh_true_mul, ← weightWhere_eq, ← weightWhere_eq, weightWhere_true,
            weightWhere_true, ← ha.2.2, ← hb.2.2]
      _ = sumOf (Table.values (a.convolve b).counts) := by
          rw [← series_convolve, ← weightWhere_eq, weightWhere_true]

/-- Independent outcomes have a well-formed tally. -/
theorem WellFormed.power {t : Tally K} (h : t.WellFormed) (n : Nat) : (t.power n).WellFormed := by
  induction n using power.induct with
  | case1 => exact h
  | case2 => exact h
  | case3 n ih => exact ih.convolve h

variable [Std.Irrefl (α := K) (· < ·)]

/-- The convolution of records is recorded by their sums. -/
theorem convolve_ofRecords (records records' : List (K × Nat)) :
    (ofRecords records).convolve (ofRecords records') = ofRecords (sums records records') := by
  have left : (ofRecords records).WellFormed := wellFormed_ofRecords records
  have right : (ofRecords records').WellFormed := wellFormed_ofRecords records'
  apply (left.convolve right).eq_of_series (wellFormed_ofRecords _)
  rw [series_convolve, series_ofRecords, series_ofRecords, series_ofRecords, sum_map_sums]

/-- The outcomes of a convolution are sums of two outcomes. -/
theorem WellFormed.exists_add_of_mem_keys {a b : Tally K} (ha : a.WellFormed) (hb : b.WellFormed)
    {k : K} (h : k ∈ Table.keys (a.convolve b).counts) :
    ∃ x ∈ Table.keys a.counts, ∃ y ∈ Table.keys b.counts, x + y = k := by
  rw [← ofRecords_counts ha, ← ofRecords_counts hb, convolve_ofRecords] at h
  obtain ⟨_, summed, rfl⟩ := List.mem_map.mp (mem_keys_ofRecords h)
  obtain ⟨r, hr, summed⟩ := List.mem_flatMap.mp summed
  obtain ⟨r', hr', rfl⟩ := List.mem_map.mp summed
  exact ⟨r.1, List.mem_map_of_mem hr, r'.1, List.mem_map_of_mem hr', rfl⟩

end Sums

variable [AddCommMonoid K] [Std.Irrefl (α := K) (· < ·)]

/-- Independent outcomes are added in either order. -/
theorem convolve_comm {a b : Tally K} (ha : a.WellFormed) (hb : b.WellFormed) :
    a.convolve b = b.convolve a := by
  apply (ha.convolve hb).eq_of_series (hb.convolve ha)
  rw [series_convolve, series_convolve, mul_comm]

/-- Three independent outcomes are added in either grouping. -/
theorem convolve_assoc {a b c : Tally K} (ha : a.WellFormed) (hb : b.WellFormed)
    (hc : c.WellFormed) : (a.convolve b).convolve c = a.convolve (b.convolve c) := by
  apply ((ha.convolve hb).convolve hc).eq_of_series (ha.convolve (hb.convolve hc))
  rw [series_convolve, series_convolve, series_convolve, series_convolve, mul_assoc]

/-- A certain zero adds nothing. -/
theorem convolve_certain_zero {a : Tally K} (ha : a.WellFormed) :
    a.convolve (certain 0) = a := by
  have one : (certain (0 : K)).series = 1 := List.sum_singleton
  apply (ha.convolve (wellFormed_certain 0)).eq_of_series ha
  rw [series_convolve, one, mul_one]

/-- Two numbers of independent outcomes are added up apart or together. -/
theorem power_add {t : Tally K} (h : t.WellFormed) {m n : Nat} (hm : 1 ≤ m) (hn : 1 ≤ n) :
    t.power (m + n) = (t.power m).convolve (t.power n) := by
  apply (h.power (m + n)).eq_of_series ((h.power m).convolve (h.power n))
  rw [series_convolve, series_power t hm, series_power t hn,
    series_power t (Nat.add_pos_left hm n), pow_add]

end Convolution

/-- On well-formed tallies of values, which convolution keeps well-formed, convolution is
commutative and associative, and a certain zero is neutral. The tally of as many independent dice as
two numbers add up to is the convolution of those of either number. -/
theorem convolve_monoid {a b c : Tally Value} (ha : a.WellFormed) (hb : b.WellFormed)
    (hc : c.WellFormed) :
    ((a.convolve b).WellFormed ∧ (certain (0 : Value)).WellFormed) ∧
      a.convolve b = b.convolve a ∧
      (a.convolve b).convolve c = a.convolve (b.convolve c) ∧
      (a.convolve (certain 0) = a ∧ (certain 0).convolve a = a) ∧
      ∀ m n, 1 ≤ m → 1 ≤ n → a.power (m + n) = (a.power m).convolve (a.power n) := by
  have zero : (certain (0 : Value)).WellFormed := wellFormed_certain 0
  refine ⟨⟨ha.convolve hb, zero⟩, convolve_comm ha hb, convolve_assoc ha hb hc, ⟨?_, ?_⟩, ?_⟩
  · exact convolve_certain_zero ha
  · rw [convolve_comm zero ha, convolve_certain_zero ha]
  · intro m n hm hn
    exact power_add ha hm hn

/-- A die with a one and two twos, a coin, and a bonus of a half that can be a loss: the coin and
the die add up as the die and the coin do, the three in either grouping, and of five such dice two
can be added up apart from the others. -/
theorem convolve_monoid_mixed :
    let die : Tally Value := ofList [1, 2, 2]
    let coin : Tally Value := ofList [0, 1]
    let bonus : Tally Value := ofRecords [(1 / 2, 3), (-1, 2)]
    coin.convolve die = ⟨[(1, 1), (2, 3), (3, 2)], 6⟩ ∧
      (die.convolve coin).convolve bonus = die.convolve (coin.convolve bonus) ∧
      (certain (0 : Value)).convolve die = die ∧
      die.power 5 = (die.power 2).convolve (die.power 3) := by
  intro die coin bonus
  have monoid := convolve_monoid (wellFormed_ofList [1, 2, 2] : die.WellFormed)
    (wellFormed_ofList [0, 1] : coin.WellFormed) (wellFormed_ofRecords _ : bonus.WellFormed)
  obtain ⟨_, comm, assoc, zero, power⟩ := monoid
  exact ⟨comm.symm.trans (by decide +kernel), assoc, zero.2, power 2 3 (by decide) (by decide)⟩

end DicePool.Tally
