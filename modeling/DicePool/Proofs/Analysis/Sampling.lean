import DicePool.Analysis.Sampling
import DicePool.Proofs.Distribution
import DicePool.Proofs.Expression.Bounds
import DicePool.Proofs.Roll.Nested
import DicePool.Proofs.Tally.Series

/-!
# Sampling is rolling

A sampled analysis draws what as many rolls of the expression in a row draw, fails where the first
of them fails, and gives every outcome its proportion of them. An expression without nested dice is
read once instead of every time; this changes nothing.
-/

namespace DicePool

open Expression

namespace Rolling

variable {σ : Type} [Roller σ]

/-- Rolls an expression a number of times, one roll after the other. -/
def rollMany (text : String) : (count : Nat) → Rolling σ (List Scored)
  | 0 => return []
  | count + 1 => return (← roll text) :: (← rollMany text count)

end Rolling

namespace Analysis

open Rolling

/-- The proportion of rolls that satisfy a predicate. -/
def proportion (rs : List Scored) (p : Scored → Bool) : Probability :=
  (rs.countP p : Probability) / (rs.length : Probability)

section Records

variable {K ι : Type} [LT K] [DecidableLT K] [Std.Trichotomous (α := K) (· < ·)]

/-- Items recorded one after the other. -/
def recordAll (f : ι → K) (items : List ι) : Tally K :=
  items.foldl (fun t i ↦ t.recordOne (f i)) Tally.empty

private theorem weightWhere_recordAll (f : ι → K) (items : List ι) (p : K → Bool) :
    (recordAll f items).weightWhere p = items.countP fun i ↦ p (f i) := by
  rw [Tally.weightWhere_eq]
  unfold recordAll Tally.recordOne
  rw [Tally.series_foldl_record, Tally.series_empty, zero_add, weigh_sum_map_single]

omit [Std.Trichotomous (α := K) (· < ·)] in
private theorem total_recordAll (f : ι → K) (items : List ι) :
    (recordAll f items).total = items.length := by
  unfold recordAll Tally.recordOne
  rw [Tally.total_foldl_record, weigh_sum_map_single, List.countP_true]

/-- The probability of an outcome of recorded items is their proportion. -/
theorem probability_recordAll [DecidableEq K] (f : ι → K) (items : List ι) (k : K) :
    (Distribution.ofTally (recordAll f items)).probability k =
      (items.countP fun i ↦ f i = k : Nat) / (items.length : Probability) := by
  rw [Distribution.probability, Distribution.massWhere_ofTally, weightWhere_recordAll,
    total_recordAll]

/-- Recorded items are listed. -/
theorem outcomes_recordAll (f : ι → K) {items : List ι} (ne : items ≠ []) :
    (Distribution.ofTally (recordAll f items)).outcomes ≠ [] := by
  have length : (items.length : Probability) ≠ 0 :=
    Nat.cast_ne_zero.mpr (mt List.length_eq_zero_iff.mp ne)
  have whole : (Distribution.ofTally (recordAll f items)).massWhere (fun _ ↦ true) = 1 := by
    rw [Distribution.massWhere_ofTally, weightWhere_recordAll, total_recordAll, List.countP_true,
      div_self length]
  intro none
  rw [Distribution.massWhere, none] at whole
  exact zero_ne_one whole

end Records

namespace Samples

/-- Recording rolls one after the other tallies their totals. -/
theorem totals_foldl_record (rs : List Scored) (s : Samples) :
    (rs.foldl record s).totals = rs.foldl (fun t r ↦ t.recordOne r.total) s.totals := by
  induction rs generalizing s with
  | nil => rfl
  | cons r rs ih => exact ih (s.record r)

/-- Recording rolls one after the other counts those that pass. -/
theorem passes_foldl_record (rs : List Scored) (s : Samples) :
    (rs.foldl record s).passes = s.passes + rs.countP fun r ↦ r.pass? = some true := by
  induction rs generalizing s with
  | nil => rfl
  | cons r rs ih =>
    rw [List.foldl_cons, ih, record, List.countP_cons]
    by_cases h : r.pass? = some true
    · simp [h, Nat.add_assoc, Nat.add_comm]
    · simp [h]

/-- Recording rolls one after the other tallies their successes, if they all count them. -/
theorem successes?_foldl_record (rs : List Scored) (s : Samples) {t : Tally Nat}
    (ht : s.successes? = some t) (h : ∀ r ∈ rs, r.success?.isSome = true) :
    (rs.foldl record s).successes? =
      some (rs.foldl (fun t r ↦ t.recordOne (r.success?.getD 0)) t) := by
  induction rs generalizing s t with
  | nil => exact ht
  | cons r rs ih =>
    rw [List.forall_mem_cons] at h
    obtain ⟨n, hn⟩ := Option.isSome_iff_exists.mp h.1
    refine ih (s.record r) ?_ h.2
    simp only [record, ht, hn, Option.getD_some]

end Samples

/-- The analysis that a number of rolls amounts to, for a reading of their expression. -/
def ofRolls? (spec : Spec) (samples : Nat) (rs : List Scored) : Option Analysis :=
  let all := rs.foldl Samples.record (Samples.none spec)
  Analysis.of? (Distribution.ofTally all.totals) (all.successes?.map Distribution.ofTally)
    (spec.modifiers.totalCheck?.map fun _ ↦ (all.passes : Probability) / (samples : Probability))
    (.monteCarlo samples)

/-- Whether an analysis gives totals and numbers of successes their proportions of rolls. -/
structure Empirical (rs : List Scored) (a : Analysis) : Prop where
  totals : ∀ v, a.distribution.probability v = proportion rs fun r ↦ r.total = v
  successes : ∃ d, a.successes? = some d ∧
    ∀ k, d.probability k = proportion rs fun r ↦ r.success? = some k

/-- Rolls that count successes have an analysis, and it gives them their proportions. -/
theorem empirical_ofRolls? {spec : Spec} {rs : List Scored} (ne : rs ≠ [])
    (hs : spec.modifiers.success?.isSome = true) (h : ∀ r ∈ rs, r.success?.isSome = true) :
    ∃ a, ofRolls? spec rs.length rs = some a ∧ Empirical rs a ∧
      a.pass? =
        spec.modifiers.totalCheck?.map fun _ ↦ proportion rs fun r ↦ r.pass? = some true := by
  have totals : (rs.foldl Samples.record (Samples.none spec)).totals =
      recordAll Scored.total rs := Samples.totals_foldl_record rs _
  have successes : (rs.foldl Samples.record (Samples.none spec)).successes? =
      some (recordAll (fun r ↦ r.success?.getD 0) rs) := by
    refine Samples.successes?_foldl_record rs _ ?_ h
    obtain ⟨c, hc⟩ := Option.isSome_iff_exists.mp hs
    rw [Samples.none, hc, Option.map_some]
  have passes : (rs.foldl Samples.record (Samples.none spec)).passes =
      rs.countP fun r ↦ r.pass? = some true :=
    (Samples.passes_foldl_record rs _).trans (Nat.zero_add _)
  obtain ⟨statistics, summary⟩ :=
    Option.ne_none_iff_exists'.mp
      (mt (Statistics.of?_eq_none_iff _).mp (outcomes_recordAll Scored.total ne))
  have analysis : ofRolls? spec rs.length rs =
      some ⟨Distribution.ofTally (recordAll Scored.total rs), statistics,
        some (Distribution.ofTally (recordAll (fun r ↦ r.success?.getD 0) rs)),
        spec.modifiers.totalCheck?.map fun _ ↦ proportion rs fun r ↦ r.pass? = some true,
        .monteCarlo rs.length⟩ := by
    simp only [ofRolls?, totals, successes, passes, Analysis.of?, summary]
    rfl
  refine ⟨_, analysis, ⟨fun v ↦ probability_recordAll _ rs v, _, rfl, fun k ↦ ?_⟩, rfl⟩
  rw [probability_recordAll, proportion]
  congr 2
  refine List.countP_congr fun r hr ↦ ?_
  obtain ⟨n, hn⟩ := Option.isSome_iff_exists.mp (h r hr)
  simp [hn]

section

variable {σ : Type} [Roller σ]

/-- An expression without nested terms is read as what it was read as before. -/
theorem parse_eq_pure {text : String} {spec : Spec} {c c' : Context σ}
    (h : (Rolling.parse text).run c = (.ok spec, c')) (none : spec.substitutions = []) :
    (Rolling.parse text : Rolling σ Spec) = pure spec := by
  have resolved := ensures_parse text c spec c' h
  have nested : nestedTerms text.toList = [] := by
    rw [← List.length_eq_zero_iff, ← resolved.1, none, List.length_nil]
  funext c₁
  change (Rolling.parse text).run c₁ = _
  rw [run_parse_of_nil nested] at h ⊢
  cases read : Expression.parse text with
  | error e =>
    rw [read] at h
    exact nomatch congrArg Prod.fst h
  | ok spec' =>
    rw [read] at h
    rw [Except.ok.inj (congrArg Prod.fst h)]
    rfl

/-- Samples of an expression that is read every time are rolls. -/
theorem sample_eq (text : String) (count : Nat) (s : Samples) :
    sample text (Rolling.parse text) count s =
      (rollMany text count : Rolling σ _) >>= fun rs ↦ pure (rs.foldl Samples.record s) := by
  induction count generalizing s with
  | zero => rw [sample, rollMany, pure_bind, List.foldl_nil]
  | succ count ih => simp only [sample, rollMany, roll, ih, bind_assoc, pure_bind, List.foldl_cons]

/-- A roll counts successes if any reading of the expression does. -/
theorem ensures_roll (text : String) :
    Ensures (roll text : Rolling σ Scored) fun r ↦ ∀ spec, Resolved text spec →
      r.success?.isSome = spec.modifiers.success?.isSome := by
  refine (ensures_parse text).bind fun spec resolved ↦ (Ensures.trivial _).bind fun o _ ↦ .pure ?_
  intro spec' resolved'
  have same := (resolved.alike resolved').2 .success
  simp only [Modifiers.contains, Modifiers.get?, Option.isSome_map] at same
  rw [← same]
  exact Option.isSome_map

/-- As many rolls as asked for count successes if any reading of the expression does. -/
theorem ensures_rollMany (text : String) (count : Nat) :
    Ensures (rollMany text count : Rolling σ (List Scored)) fun rs ↦ rs.length = count ∧
      ∀ r ∈ rs, ∀ spec, Resolved text spec →
        r.success?.isSome = spec.modifiers.success?.isSome := by
  induction count with
  | zero => exact .pure (by simp)
  | succ count ih =>
    refine (ensures_roll text).bind fun r hr ↦ ih.bind fun rs hrs ↦ .pure ?_
    exact ⟨congrArg Nat.succ hrs.1, List.forall_mem_cons.mpr ⟨hr, hrs.2⟩⟩

/-- A sampled analysis of numeric faces is that of as many rolls. -/
private theorem run_monteCarlo_of_parse {text : String} {first : Spec} {c c₁ : Context σ}
    (h : (Rolling.parse text).run c = (.ok first, c₁)) (hn : first.isNumeric = true)
    (others : Nat) :
    (monteCarlo text (others + 1)).run c =
      (rollMany text (others + 1) >>= fun rs ↦
        match ofRolls? first (others + 1) rs with
        | some a => pure a
        | none => throw .noSamples).run c := by
  -- the first specification is used again only if nothing is rolled to read the expression
  have next : (if first.substitutions = [] then pure first else Rolling.parse text) =
      (Rolling.parse text : Rolling σ Spec) := by
    split
    · next none => exact (parse_eq_pure h none).symm
    · rfl
  rw [monteCarlo, rollMany, roll, bind_assoc, bind_assoc, run_bind_of_ok h, run_bind_of_ok h]
  simp only [hn, next, sample_eq, bind_assoc, pure_bind]
  rfl

/-- A reading of numeric faces counts successes. -/
private theorem isSome_success? {text : String} {spec : Spec} (h : Resolved text spec)
    (hn : spec.isNumeric = true) : spec.modifiers.success?.isSome = true := by
  obtain ⟨_, _, _, _, read⟩ := h
  exact ((Spec.bounded_of_parse read).numeric hn).2.2

/-- All readings of an expression check the total, or none does. -/
private theorem map_totalCheck? {α : Type} {text : String} {spec spec' : Spec}
    (h : Resolved text spec) (h' : Resolved text spec') (x : α) :
    spec.modifiers.totalCheck?.map (fun _ ↦ x) = spec'.modifiers.totalCheck?.map fun _ ↦ x := by
  have same := (h.alike h').2 .totalCheck
  simp only [Modifiers.contains, Modifiers.get?, Option.isSome_map] at same
  cases hc : spec.modifiers.totalCheck? <;> cases hc' : spec'.modifiers.totalCheck? <;>
    simp_all

/-- A sampled analysis of an expression with numeric faces is that of as many rolls in a row: it
leaves the context as they do, fails with the error of the first roll that fails, and otherwise
gives every total and every number of successes its proportion. The proportion of rolls that pass is
given exactly if the expression has a total check, which does not hang on how nested dice fall. -/
theorem run_monteCarlo {text : String} {samples : Nat} (pos : 0 < samples) {c : Context σ}
    (numeric : ∀ spec c', (Rolling.parse text).run c = (.ok spec, c') → spec.isNumeric = true) :
    (∀ e c', (rollMany text samples).run c = (.error e, c') →
      (monteCarlo text samples).run c = (.error e, c')) ∧
    (∀ rs c', (rollMany text samples).run c = (.ok rs, c') →
      rs.length = samples ∧
      ∃ a, (monteCarlo text samples).run c = (.ok a, c') ∧ Empirical rs a ∧
        ∀ (c₁ : Context σ) spec c₂, (Rolling.parse text).run c₁ = (.ok spec, c₂) →
          a.pass? =
            spec.modifiers.totalCheck?.map fun _ ↦ proportion rs fun r ↦ r.pass? = some true) := by
  obtain ⟨others, rfl⟩ := Nat.exists_eq_succ_of_ne_zero pos.ne'
  cases hp : (Rolling.parse text).run c with
  | mk first? c₁ =>
  cases first? with
  | error e =>
    have failed : (roll text).run c = (.error e, c₁) := run_bind_of_error hp
    have rolled : (rollMany text (others + 1)).run c = (.error e, c₁) := run_bind_of_error failed
    have sampled : (monteCarlo text (others + 1)).run c = (.error e, c₁) := run_bind_of_error hp
    constructor
    · intro e' c' h
      cases rolled.symm.trans h
      exact sampled
    · intro rs c' h
      exact nomatch congrArg Prod.fst (rolled.symm.trans h)
  | ok first =>
    rw [run_monteCarlo_of_parse hp (numeric first c₁ hp)]
    constructor
    · intro e c' h
      exact run_bind_of_error h
    · intro rs c' h
      have resolved := ensures_parse text c first c₁ hp
      have success := isSome_success? resolved (numeric first c₁ hp)
      obtain ⟨length, counted⟩ := ensures_rollMany text _ c rs c' h
      obtain ⟨a, analysis, empirical, pass⟩ :=
        empirical_ofRolls? (List.length_pos_iff.mp (length ▸ pos)) success fun r hr ↦
          (counted r hr first resolved).trans success
      rw [length] at analysis
      refine ⟨length, a, ?_, empirical, fun c₁ spec c₂ read ↦ ?_⟩
      · rw [run_bind_of_ok h, analysis, run_pure]
      · rw [pass]
        exact map_totalCheck? resolved (ensures_parse text c₁ spec c₂ read) _

end

private def twoRolls : Context Script := Context.new {} ⟨[3, 5, 2, 4]⟩

/-- Two rolls with a nested die, the first for eight and the second for six: eight has the
probability one half, and so has passing a check for more than seven. -/
theorem run_monteCarlo_nestedDie :
    ∃ rs a c', (rollMany "1d6+1d4 t>7" 2).run twoRolls = (.ok rs, c') ∧
      rs.map Scored.total = [8, 6] ∧ (monteCarlo "1d6+1d4 t>7" 2).run twoRolls = (.ok a, c') ∧
      a.distribution.probability 8 = 1 / 2 ∧ a.pass? = some (1 / 2) := by
  obtain ⟨spec, c₁, read, numeric⟩ :=
    exists_result (r := (Rolling.parse "1d6+1d4 t>7").run twoRolls)
      (f := fun spec ↦ (spec.isNumeric, spec.modifiers.totalCheck?.isSome)) (b := (true, true))
      (by decide +kernel)
  obtain ⟨rs, c', rolled, falls⟩ :=
    exists_result (r := (rollMany "1d6+1d4 t>7" 2).run twoRolls)
      (f := fun rs ↦ rs.map fun r ↦ (r.total, r.pass?)) (b := [(8, some true), (6, some false)])
      (by decide +kernel)
  have hn : ∀ spec' c', (Rolling.parse "1d6+1d4 t>7").run twoRolls = (.ok spec', c') →
      spec'.isNumeric = true := by
    intro spec' c' read'
    obtain rfl := Except.ok.inj (congrArg Prod.fst (read.symm.trans read'))
    exact congrArg Prod.fst numeric
  obtain ⟨_, a, sampled, empirical, pass⟩ := (run_monteCarlo Nat.two_pos hn).2 rs c' rolled
  obtain ⟨r₁, r₂, rfl, total₁, pass₁, total₂, pass₂⟩ : ∃ r₁ r₂, rs = [r₁, r₂] ∧ r₁.total = 8 ∧
      r₁.pass? = some true ∧ r₂.total = 6 ∧ r₂.pass? = some false := by
    obtain ⟨r₁, rs, rfl, first, rest⟩ := List.map_eq_cons_iff.mp falls
    obtain ⟨r₂, rs, rfl, second, none⟩ := List.map_eq_cons_iff.mp rest
    obtain rfl := List.map_eq_nil_iff.mp none
    simp only [Prod.mk.injEq] at first second
    exact ⟨r₁, r₂, rfl, first.1, first.2, second⟩
  have checked : spec.modifiers.totalCheck?.isSome = true := congrArg Prod.snd numeric
  obtain ⟨check, hc⟩ := Option.isSome_iff_exists.mp checked
  refine ⟨_, a, c', rolled, by simp [total₁, total₂], sampled, ?_, ?_⟩
  · rw [empirical.totals, proportion]
    simp [total₁, total₂]
  · rw [pass twoRolls spec c₁ read, hc, Option.map_some, proportion]
    simp [pass₁, pass₂]

end Analysis

end DicePool
