import DicePool.Proofs.Analysis.Exact
import DicePool.Proofs.Tally.Scale

/-!
# Proportions of faces

Faces enter an exact analysis through the tally of one die. Multiplying its weights by a common
factor multiplies the weights of the tallies of a roll by a power of that factor, in convolution, in
the binomial formula and in the enumeration of pools alike, and does not change how many pools there
are. An analysis therefore depends on the shares of the faces alone.
-/

namespace DicePool

private theorem count_flatten_replicate {α : Type} [DecidableEq α] (c : Nat) (l : List α) (x : α) :
    (List.replicate c l).flatten.count x = c * l.count x := by
  rw [List.count_flatten, List.map_replicate, List.sum_replicate, smul_eq_mul]

namespace FaceSet

/-- The share of the faces that show a number, repeated faces included. -/
def share (faces : FaceSet) (v : Value) : Rat :=
  ((faces.numbers?.getD []).count v : Rat) / faces.size

variable {faces faces' : FaceSet} {numbers numbers' : List Value}

/-- The share of a number is its count by the number of faces. -/
theorem share_eq (hn : faces.numbers? = some numbers) (v : Value) :
    faces.share v = (numbers.count v : Rat) / numbers.length := by
  rw [share, hn, Option.getD_some, length_of_numbers? hn]

/-- Numbers that are listed in another order, and each as often as before or all of them equally
more often, have the same shares. -/
theorem share_eq_of_perm (hn : faces.numbers? = some numbers) (hn' : faces'.numbers? = some numbers')
    {m : Nat} (hm : 0 < m) (perm : numbers'.Perm (List.replicate m numbers).flatten) (v : Value) :
    faces'.share v = faces.share v := by
  have factor : (m : Rat) ≠ 0 := by exact_mod_cast hm.ne'
  have count : numbers'.count v = m * numbers.count v := by
    rw [perm.count_eq, count_flatten_replicate]
  have length : numbers'.length = m * numbers.length := by
    rw [perm.length_eq, List.length_flatten, List.map_replicate, List.sum_replicate, smul_eq_mul]
  rw [share_eq hn, share_eq hn', count, length, Nat.cast_mul, Nat.cast_mul,
    mul_div_mul_left _ _ factor]

/-- Numbers with the same shares are counted in proportion to the numbers of faces. -/
theorem mul_count_of_share (hn : faces.numbers? = some numbers)
    (hn' : faces'.numbers? = some numbers') (shares : ∀ v, faces'.share v = faces.share v)
    (v : Value) : numbers'.length * numbers.count v = numbers.length * numbers'.count v := by
  have size : (numbers.length : Rat) ≠ 0 := by exact_mod_cast (length_pos_of_numbers? hn).ne'
  have size' : (numbers'.length : Rat) ≠ 0 := by exact_mod_cast (length_pos_of_numbers? hn').ne'
  have same := shares v
  rw [share_eq hn, share_eq hn', div_eq_div_iff size' size] at same
  have crossed : (numbers'.length * numbers.count v : Rat) = numbers.length * numbers'.count v := by
    rw [mul_comm, ← same, mul_comm]
  exact_mod_cast crossed

end FaceSet

/-- Lists that count all items in proportion do so after a change of the items. -/
private theorem mul_count_map {α β : Type} [DecidableEq α] [DecidableEq β] {l l' : List α}
    {c c' : Nat} (h : ∀ x, c * l.count x = c' * l'.count x) (f : α → β) (y : β) :
    c * (l.map f).count y = c' * (l'.map f).count y := by
  have perm : (List.replicate c l).flatten.Perm (List.replicate c' l').flatten := by
    apply List.perm_iff_count.mpr
    intro x
    rw [count_flatten_replicate, count_flatten_replicate, h]
  have mapped := (perm.map f).count_eq y
  rwa [List.map_flatten, List.map_replicate, List.map_flatten, List.map_replicate,
    count_flatten_replicate, count_flatten_replicate] at mapped

namespace Analysis

/-- The tallies with all weights multiplied by a factor. -/
def Tallies.scale (c : Nat) (t : Tallies) : Tallies :=
  ⟨t.totals.scale c, t.successes?.map (Tally.scale c)⟩

/-- A record takes part in a positive factor. -/
theorem Tallies.record_scale (success? : Option Condition) (t : Tallies) (kept : List Value)
    (w : Nat) {c : Nat} (hc : 0 < c) :
    (t.scale c).record success? kept (c * w) = (t.record success? kept w).scale c := by
  obtain ⟨totals, successes?⟩ := t
  unfold record scale
  rw [Tally.record_scale _ _ _ hc]
  cases successes? with
  | none => rfl
  | some s =>
    cases success? with
    | none => rfl
    | some d => exact congrArg (fun s ↦ Tallies.mk _ (some s)) (Tally.record_scale _ _ _ hc)

/-- Records one after the other take part in a positive factor. -/
theorem Tallies.foldl_record_scale {ι : Type} (success? : Option Condition) (kept : ι → List Value)
    (w : ι → Nat) (items : List ι) (t : Tallies) {c : Nat} (hc : 0 < c) :
    items.foldl (fun t i ↦ t.record success? (kept i) (c * w i)) (t.scale c) =
      (items.foldl (fun t i ↦ t.record success? (kept i) (w i)) t).scale c := by
  induction items generalizing t with
  | nil => rfl
  | cons i items ih => rw [List.foldl_cons, record_scale _ _ _ _ hc, ih, List.foldl_cons]

/-- A factor on the weights of a die is a power on those of the successes. -/
theorem binomial_scale (n : Nat) (die : Tally Value) (d : Condition) {c : Nat} (hc : 0 < c) :
    binomial n (die.scale c) d = (binomial n die d).scale (c ^ n) := by
  have hits : (die.scale c).weightWhere d.holds = c * die.weightWhere d.holds :=
    die.weightWhere_scale c d.holds
  have misses : (die.scale c).total - c * die.weightWhere d.holds =
      c * (die.total - die.weightWhere d.holds) := (Nat.mul_sub c _ _).symm
  unfold binomial
  simp only [hits, misses]
  rw [← Tally.foldr_record_scale _ _ _ (Nat.pow_pos hc)]
  apply List.foldr_ext
  intro k hk t
  have split : c ^ n = c ^ k * c ^ (n - k) := by
    rw [← pow_add, Nat.add_sub_cancel' (Nat.lt_succ_iff.mp (List.mem_range.mp hk))]
  simp only [Nat.pow_eq, mul_pow, split]
  congr 1
  ring

/-- A factor on the weights of a die is a power on those of the pools. -/
theorem pooled_scale (spec : Spec) (limits : Limits) (die : Tally Value) {c : Nat} (hc : 0 < c) :
    pooled spec limits (die.scale c) =
      (pooled spec limits die).map (Tallies.scale (c ^ spec.count)) := by
  have faces : Table.keys (die.scale c).counts = Table.keys die.counts :=
    Table.keys_mapValues _ die.counts
  have weights : Table.values (die.scale c).counts = (Table.values die.counts).map (c * ·) := by
    rw [Table.values, Tally.scale, Table.mapValues, List.map_map, Table.values, List.map_map]
    rfl
  have none : (⟨Tally.empty, spec.modifiers.success?.map fun _ ↦ Tally.empty⟩ : Tallies) =
      Tallies.scale (c ^ spec.count)
        ⟨Tally.empty, spec.modifiers.success?.map fun _ ↦ Tally.empty⟩ := by
    cases spec.modifiers.success? <;> rfl
  unfold pooled
  simp only [faces, weights, Pools.fold_eq_foldl]
  split
  · rfl
  · rw [Except.map, ← Tallies.foldl_record_scale _ _ _ _ _ (Nat.pow_pos hc), ← none]
    congr 1
    apply List.foldl_ext
    intro t counts hcounts
    obtain ⟨length, dice⟩ := Pools.mem_all hcounts
    have slots : (Table.values die.counts).length = counts.length := by
      rw [length, Table.values, Table.keys, List.length_map, List.length_map]
    rw [Pools.weight_map_mul c slots dice]

/-- A factor on the weights of a die is a power on those of a roll. -/
theorem tallies_scale {spec : Spec} (hn : 0 < spec.count) (limits : Limits) (die : Tally Value)
    {c : Nat} (hc : 0 < c) :
    tallies spec limits (die.scale c) =
      (tallies spec limits die).map (Tallies.scale (c ^ spec.count)) := by
  unfold tallies
  split
  · exact pooled_scale spec limits die hc
  · unfold independent Except.map Tallies.scale
    rw [@Tally.power_scale Value _ _ Value.wrapping die c spec.count hn]
    cases spec.modifiers.success? with
    | none => rfl
    | some d => exact congrArg (fun s ↦ Except.ok (Tallies.mk _ (some s))) (binomial_scale _ _ _ hc)

/-- A positive factor leaves the analysis. -/
theorem ofTallies?_scale (spec : Spec) (t : Tallies) {c : Nat} (hc : 0 < c) :
    ofTallies? spec (t.scale c) = ofTallies? spec t := by
  have successes : (t.scale c).successes?.map Distribution.ofTally =
      t.successes?.map Distribution.ofTally := by
    rw [Tallies.scale, Option.map_map]
    congr 1
    funext s
    exact s.ofTally_scale hc
  unfold ofTallies?
  rw [successes, Tallies.scale, Tally.ofTally_scale _ hc]

variable {spec spec' : Spec} {numbers numbers' : List Value}

/-- A positive factor on the weights of a die leaves the analysis of a roll. -/
theorem bind_tallies_scale (hn : 0 < spec.count) (limits : Limits) (die : Tally Value) {c : Nat}
    (hc : 0 < c) :
    ((tallies spec limits (die.scale c)).bind fun t ↦
        (ofTallies? spec t).elim (.error Error.noSamples) .ok) =
      (tallies spec limits die).bind fun t ↦
        (ofTallies? spec t).elim (.error Error.noSamples) .ok := by
  rw [tallies_scale hn limits die hc]
  cases tallies spec limits die with
  | error e => rfl
  | ok t =>
    show (ofTallies? spec (t.scale (c ^ spec.count))).elim _ _ = (ofTallies? spec t).elim _ _
    rw [ofTallies?_scale spec t (Nat.pow_pos hc)]

/-- The tallies of dice with the same shares are the same up to the numbers of faces. -/
theorem single_scale_eq (hn : spec.faces.numbers? = some numbers)
    (hn' : spec'.faces.numbers? = some numbers') (hm : spec'.modifiers = spec.modifiers)
    (shares : ∀ v, spec'.faces.share v = spec.faces.share v) :
    (single spec' numbers').scale numbers.length = (single spec numbers).scale numbers'.length := by
  apply Tally.WellFormed.eq_of_weight
  · exact (Tally.wellFormed_ofList _).scale (FaceSet.length_pos_of_numbers? hn)
  · exact (Tally.wellFormed_ofList _).scale (FaceSet.length_pos_of_numbers? hn')
  intro v
  show (Tally.scale _ _).weightWhere _ = (Tally.scale _ _).weightWhere _
  rw [Tally.weightWhere_scale, Tally.weightWhere_scale]
  show _ * (Tally.ofList _).weight v = _ * (Tally.ofList _).weight v
  rw [Tally.weight_ofList, Tally.weight_ofList, hm]
  exact mul_count_map (fun x ↦ (FaceSet.mul_count_of_share hn hn' shares x).symm) _ v

/-- Dice that are drawn once are analysed by their shares. -/
private theorem exact_eq_of_plain {limits : Limits} (plain : spec.Plain)
    (hn : spec.faces.numbers? = some numbers) (hn' : spec'.faces.numbers? = some numbers')
    (hc : 0 < spec.count) (count : spec'.count = spec.count)
    (modifiers : spec'.modifiers = spec.modifiers)
    (shares : ∀ v, spec'.faces.share v = spec.faces.share v) :
    exact spec' limits = exact spec limits := by
  have plain' : spec'.Plain := by
    rw [Spec.plain_iff, modifiers, ← Spec.plain_iff]
    exact plain
  have same (die : Tally Value) : tallies spec' limits die = tallies spec limits die := by
    unfold tallies pooled independent
    rw [count, modifiers]
  have concluded (t : Tallies) : ofTallies? spec' t = ofTallies? spec t := by
    unfold ofTallies?
    rw [modifiers]
  rw [exact_eq_bind plain hn, exact_eq_bind plain' hn']
  simp only [same, concluded]
  -- Each die is scaled by the number of faces of the other, after which they are the same.
  rw [← bind_tallies_scale hc limits (single spec' numbers') (FaceSet.length_pos_of_numbers? hn),
    single_scale_eq hn hn' modifiers shares,
    bind_tallies_scale hc limits (single spec numbers) (FaceSet.length_pos_of_numbers? hn')]

/-- An exact analysis depends on the shares of the faces alone: rolls of as many dice with the same
modifiers have the same analysis, or fail alike. -/
theorem exact_eq_of_share {limits : Limits} (hn : spec.isNumeric = true)
    (hn' : spec'.isNumeric = true) (hc : 0 < spec.count) (count : spec'.count = spec.count)
    (modifiers : spec'.modifiers = spec.modifiers)
    (shares : ∀ v, spec'.faces.share v = spec.faces.share v) :
    exact spec' limits = exact spec limits := by
  by_cases he : spec.modifiers.contains .explode = true
  · rw [exact_of_explode he, exact_of_explode (by rw [modifiers, he])]
  · have he := Bool.eq_false_of_not_eq_true he
    by_cases hr : spec.modifiers.contains .reroll = true
    · rw [exact_of_reroll he hr, exact_of_reroll (by rw [modifiers, he]) (by rw [modifiers, hr])]
    · have plain := Spec.plain_iff.mpr ⟨he, Bool.eq_false_of_not_eq_true hr⟩
      exact exact_eq_of_plain plain (FaceSet.numbers?_of_isNumeric hn)
        (FaceSet.numbers?_of_isNumeric hn') hc count modifiers shares

/-- Two dice with the faces of `highestOfTwo` listed backwards and forwards. -/
def highestOfTwoListed : Spec :=
  { highestOfTwo with
    faces := .list [.number 2, .number 1, .number 1, .number 2] (by decide) }

/-- The faces one and two are analysed as they are when both are listed twice. -/
theorem exact_eq_of_share_highestOfTwo :
    exact highestOfTwoListed {} = exact highestOfTwo {} := by
  have listed : [(2 : Value), 1, 1, 2].Perm (List.replicate 2 [(1 : Value), 2]).flatten := by decide
  have shares (v : Value) : highestOfTwoListed.faces.share v = highestOfTwo.faces.share v :=
    FaceSet.share_eq_of_perm rfl rfl Nat.two_pos listed v
  exact exact_eq_of_share rfl rfl Nat.two_pos rfl rfl shares

end Analysis

end DicePool
