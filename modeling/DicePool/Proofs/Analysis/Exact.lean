import DicePool.Proofs.Analysis.Rolls

/-!
# Exact analysis agrees with rolling

Rolled with every vector of answers in turn, a specification yields each total and each number of
successes as often as its exact analysis says.
-/

namespace DicePool.Analysis

open Rolling

/-- The tallies count the totals before adjustment and the successes of all vectors of answers. -/
structure Tallies.OfRolls (spec : Spec) (t : Tallies) : Prop where
  totals : Counts spec t.totals fun answers ↦ Value.sum (spec.kept answers)
  successes : Option.Rel
    (fun c s ↦ Counts spec s fun answers ↦ (spec.kept answers).countP c.holds)
    spec.modifiers.success? t.successes?

private theorem foldl_record {ι : Type} (success? : Option Condition) (kept : ι → List Value)
    (w : ι → Nat) (items : List ι) (totals : Tally Value) (successes : Tally Nat) :
    items.foldl (fun t i ↦ Tallies.record success? t (kept i) (w i))
        ⟨totals, success?.map fun _ ↦ successes⟩ =
      ⟨items.foldl (fun t i ↦ t.record (Value.sum (kept i)) (w i)) totals,
        success?.map fun c ↦
          items.foldl (fun t i ↦ t.record ((kept i).countP c.holds) (w i)) successes⟩ := by
  induction items generalizing totals successes with
  | nil => rfl
  | cons i items ih =>
    rw [List.foldl_cons, List.foldl_cons]
    cases success? with
    | none => exact ih _ successes
    | some c => exact ih _ _

variable {spec : Spec} {numbers : List Value} (hn : spec.faces.numbers? = some numbers)

include hn

/-- Dice that are all counted are tallied with all vectors. -/
theorem ofRolls_independent (hc : 0 < spec.count) (hs : spec.modifiers.selects = false) :
    (independent spec (single spec numbers)).OfRolls spec := by
  have kept (answers : List Nat) : spec.kept answers = answers.map spec.boosted :=
    Modifiers.filterPool_of_not_selects hs _
  constructor
  · simp only [kept]
    exact counts_power hn hc
  · simp only [kept]
    unfold independent
    cases spec.modifiers.success? with
    | none => exact .none
    | some c => exact .some (counts_binomial hn c)

/-- Dice of which some are kept or dropped are tallied with all vectors. -/
theorem ofRolls_pooled {limits : Limits} {t : Tallies} (hs : spec.modifiers.selects = true)
    (h : pooled spec limits (single spec numbers) = .ok t) : t.OfRolls spec := by
  dsimp only [pooled] at h
  split at h
  · contradiction
  · rw [Pools.fold_eq_foldl, foldl_record, Except.ok.injEq, Table.keys, List.length_map] at h
    rw [← h]
    have congr (l l' : List Value) (hp : l.Perm l') := Modifiers.filterPool_congr hs hp
    constructor
    · exact counts_pools hn (g := fun l ↦ Value.sum (spec.modifiers.filterPool l))
        fun l l' hp ↦ congrArg Value.sum (congr l l' hp)
    · cases spec.modifiers.success? with
      | none => exact .none
      | some c =>
        exact .some (counts_pools hn (g := fun l ↦ (spec.modifiers.filterPool l).countP c.holds)
          fun l l' hp ↦ congrArg (List.countP c.holds) (congr l l' hp))

omit hn

/-- What an exact analysis is made of. -/
structure IsExact (spec : Spec) (t : Tallies) (analysis : Analysis) : Prop where
  plain : spec.Plain
  numeric : spec.isNumeric = true
  tallies : t.OfRolls spec
  distribution : analysis.distribution =
    (Distribution.ofTally t.totals).map (Value.plus · spec.modifiers.adjustment)
  successes : analysis.successes? = t.successes?.map Distribution.ofTally
  pass : analysis.pass? =
    spec.modifiers.totalCheck?.map fun c ↦ analysis.distribution.massWhere c.holds

namespace IsExact

variable {t : Tallies} {analysis : Analysis}

/-- The mass of a set of totals is the share of the vectors of answers with one of them. -/
theorem massWhere (h : IsExact spec t analysis) (p : Value → Bool) :
    analysis.distribution.massWhere p =
      frequency spec fun answers ↦ p (spec.totalOf answers) = true := by
  rw [h.distribution, Distribution.massWhere_map, h.tallies.totals.massWhere_ofTally]
  rfl

/-- A set of totals has an outcome exactly if some vector of answers has one of them. -/
theorem exists_mem_keys_iff (h : IsExact spec t analysis) (p : Value → Bool) :
    (∃ v ∈ Table.keys analysis.distribution.outcomes, p v = true) ↔
      ∃ x ∈ rolls spec, p (spec.totalOf (List.ofFn x)) = true := by
  have moved : (∃ v ∈ Table.keys analysis.distribution.outcomes, p v = true) ↔
      ∃ k ∈ Table.keys t.totals.counts, p (Value.plus k spec.modifiers.adjustment) = true := by
    simp only [h.distribution, Distribution.mem_keys_map, Distribution.keys_ofTally]
    exact exists_exists_and_eq_and
  rw [moved]
  exact h.tallies.totals.exists_mem_keys_iff fun k ↦ p (Value.plus k spec.modifiers.adjustment)

/-- The outcomes are the totals of the vectors of answers. -/
theorem mem_keys_iff (h : IsExact spec t analysis) (v : Value) :
    v ∈ Table.keys analysis.distribution.outcomes ↔
      ∃ x ∈ rolls spec, spec.totalOf (List.ofFn x) = v := by
  have outcome := h.exists_mem_keys_iff fun k ↦ k = v
  simpa only [decide_eq_true_eq, exists_eq_right] using outcome

end IsExact

/-- An analysis that shows something succeeds and shows it. -/
theorem exists_analysis {β : Type} {r : Except Error Analysis} {f : Analysis → β} {b : β}
    (h : r.toOption.map f = some b) : ∃ analysis, r = .ok analysis ∧ f analysis = b := by
  cases r with
  | error e => contradiction
  | ok analysis => exact ⟨analysis, rfl, Option.some.inj h⟩

/-- Exploding dice have no exact analysis. -/
theorem exact_of_explode {limits : Limits} (h : spec.modifiers.contains .explode = true) :
    exact spec limits = .error (.unsupportedModifier .explode) := by
  rw [exact, if_pos h]
  rfl

/-- Rerolled dice have no exact analysis. -/
theorem exact_of_reroll {limits : Limits} (he : spec.modifiers.contains .explode = false)
    (h : spec.modifiers.contains .reroll = true) :
    exact spec limits = .error (.unsupportedModifier .reroll) := by
  rw [exact, he, if_pos h]
  rfl

/-- Dice that do not all show numbers have no exact analysis. -/
theorem exact_of_labels {limits : Limits} (he : spec.modifiers.contains .explode = false)
    (hr : spec.modifiers.contains .reroll = false) (hn : spec.isNumeric = false) :
    exact spec limits = .error (.nonNumericFaces spec.faces.kind) := by
  have none : spec.faces.numbers? = none := by
    rw [← Option.isNone_iff_eq_none, ← Option.not_isSome, FaceSet.isSome_numbers?]
    exact congrArg not hn
  rw [exact, he, hr, none]
  rfl

/-- The tallies of a specification from those of one of its dice. -/
def tallies (spec : Spec) (limits : Limits) (die : Tally Value) : Except Error Tallies :=
  if spec.modifiers.selects then pooled spec limits die else .ok (independent spec die)

/-- The analysis that tallies amount to. -/
def ofTallies? (spec : Spec) (t : Tallies) : Option Analysis :=
  let distribution := (Distribution.ofTally t.totals).map (Value.plus · spec.modifiers.adjustment)
  of? distribution (t.successes?.map Distribution.ofTally)
    (spec.modifiers.totalCheck?.map fun c ↦ distribution.massWhere c.holds) .exact

/-- Dice that are drawn once and show numbers are tallied, and the tallies analysed. -/
theorem exact_eq_bind {limits : Limits} (hp : spec.Plain)
    (hn : spec.faces.numbers? = some numbers) :
    exact spec limits = (tallies spec limits (single spec numbers)).bind fun t ↦
      (ofTallies? spec t).elim (.error Error.noSamples) .ok := by
  obtain ⟨he, hr⟩ := Spec.plain_iff.mp hp
  simp only [exact, he, hr, hn, Bool.false_eq_true, if_false, pure_bind, tallies]
  cases spec.modifiers.selects with
  | true =>
    cases pooled spec limits (single spec numbers) with
    | error e => rfl
    | ok t =>
      simp only [if_true, bind, Except.bind, ofTallies?]
      generalize of? _ _ _ _ = a?
      cases a? <;> rfl
  | false =>
    simp only [Bool.false_eq_true, if_false, Except.bind, ofTallies?]
    generalize of? _ _ _ _ = a?
    cases a? <;> rfl

/-- An analysis succeeds if the dice are tallied and the tallies amount to one. -/
theorem exact_eq_ok_iff {limits : Limits} {analysis : Analysis} (hp : spec.Plain)
    (hn : spec.faces.numbers? = some numbers) :
    exact spec limits = .ok analysis ↔ ∃ t, tallies spec limits (single spec numbers) = .ok t ∧
      ofTallies? spec t = some analysis := by
  have conclude (t : Tallies) : (ofTallies? spec t).elim (.error Error.noSamples) .ok =
      (.ok analysis : Except Error Analysis) ↔ ofTallies? spec t = some analysis := by
    cases ofTallies? spec t <;> simp
  rw [exact_eq_bind hp hn]
  cases tallies spec limits (single spec numbers) with
  | error e => simp [Except.bind]
  | ok t => simp [Except.bind, conclude]

/-- Only dice that are drawn once and show numbers are analysed. -/
theorem plain_of_ok {limits : Limits} {analysis : Analysis} (h : exact spec limits = .ok analysis) :
    spec.Plain ∧ spec.isNumeric = true := by
  have he : spec.modifiers.contains .explode = false := by
    by_contra hne
    rw [exact_of_explode (Bool.eq_true_of_not_eq_false hne)] at h
    contradiction
  have hr : spec.modifiers.contains .reroll = false := by
    by_contra hne
    rw [exact_of_reroll he (Bool.eq_true_of_not_eq_false hne)] at h
    contradiction
  have hn : spec.isNumeric = true := by
    by_contra hne
    rw [exact_of_labels he hr (Bool.eq_false_of_not_eq_true hne)] at h
    contradiction
  exact ⟨Spec.plain_iff.mpr ⟨he, hr⟩, hn⟩

private theorem ofRolls_of_tallies {limits : Limits} {t : Tallies}
    (hn : spec.faces.numbers? = some numbers) (hc : 0 < spec.count)
    (ht : tallies spec limits (single spec numbers) = .ok t) : t.OfRolls spec := by
  unfold tallies at ht
  split at ht
  · next hs => exact ofRolls_pooled hn hs ht
  · next hs =>
    rw [← Except.ok.inj ht]
    exact ofRolls_independent hn hc (Bool.eq_false_of_not_eq_true hs)

/-- An analysis of at least one die is made of the tallies of all vectors. -/
theorem isExact_of_ok {limits : Limits} {analysis : Analysis} (hc : 0 < spec.count)
    (h : exact spec limits = .ok analysis) : ∃ t, IsExact spec t analysis := by
  obtain ⟨plain, numeric⟩ := plain_of_ok h
  have hn := FaceSet.numbers?_of_isNumeric numeric
  obtain ⟨t, ht, ha⟩ := (exact_eq_ok_iff plain hn).mp h
  have counted := ofRolls_of_tallies hn hc ht
  obtain ⟨statistics, _, ha⟩ := Option.bind_eq_some_iff.mp ha
  cases ha
  exact ⟨t, plain, numeric, counted, rfl, rfl, rfl⟩

/-- At least one die that is drawn once and shows numbers is analysed, unless there are too many
pools to keep or drop from. -/
theorem exists_exact_ok {limits : Limits} (hp : spec.Plain)
    (hn : spec.faces.numbers? = some numbers) (hc : 0 < spec.count)
    (ho : spec.modifiers.selects = true →
      Pools.number (Table.keys (single spec numbers).counts).length spec.count ≤ limits.outcomes) :
    ∃ analysis, exact spec limits = .ok analysis := by
  have tallied : ∃ t, tallies spec limits (single spec numbers) = .ok t := by
    unfold tallies
    split
    · next hs => exact ⟨_, if_neg (Nat.not_lt.mpr (ho hs))⟩
    · exact ⟨_, rfl⟩
  obtain ⟨t, ht⟩ := tallied
  have rolled : (rolls spec).Nonempty := by
    rw [← Finset.card_pos, card_rolls]
    exact Nat.pow_pos spec.faces.size_pos
  obtain ⟨x, hx⟩ := rolled
  have counted := (ofRolls_of_tallies hn hc ht).totals.exists_mem_keys_iff fun _ ↦ true
  obtain ⟨k, hk, _⟩ := counted.mpr ⟨x, hx, rfl⟩
  let distribution :=
    (Distribution.ofTally t.totals).map (Value.plus · spec.modifiers.adjustment)
  have outcome : Value.plus k spec.modifiers.adjustment ∈ Table.keys distribution.outcomes := by
    rw [Distribution.mem_keys_map, Distribution.keys_ofTally]
    exact ⟨k, hk, rfl⟩
  cases hs : Statistics.of? distribution with
  | none =>
    rw [(Statistics.of?_eq_none_iff distribution).mp hs] at outcome
    exact absurd outcome List.not_mem_nil
  | some statistics =>
    exact ⟨_, (exact_eq_ok_iff hp hn).mpr ⟨t, ht, Option.bind_eq_some_iff.mpr ⟨_, hs, rfl⟩⟩⟩

section Agreement

variable {limits budget : Limits} {analysis : Analysis} {t : Tallies}

private theorem exists_yields_iff (h : IsExact spec t analysis) (hb : spec.count ≤ budget.rolls)
    (name : String) {answers : List Nat} (hl : answers.length = spec.count) (p : Scored → Prop) :
    (∃ scored, Yields name spec budget answers scored ∧ p scored) ↔
      p (Outcome.score ⟨(answers.map spec.faces.value).map .number,
        (spec.kept answers).map .number⟩ name spec) := by
  simp only [yields_iff h.plain h.numeric name budget hl hb, exists_eq_left']

/-- The mass of a set of totals is the share of the vectors that yield one of them. -/
theorem massWhere_totals (h : IsExact spec t analysis) (hb : spec.count ≤ budget.rolls)
    (name : String) (p : Value → Bool) :
    analysis.distribution.massWhere p = frequency spec fun answers ↦
      ∃ scored, Yields name spec budget answers scored ∧ p scored.total = true := by
  rw [h.massWhere]
  apply frequency_congr
  intro answers hl _
  rw [exists_yields_iff h hb name hl, Outcome.score, Outcome.total_numbers h.numeric]
  rfl

/-- A set of totals has an outcome exactly if some vector yields one of them. -/
theorem exists_outcome_iff (h : IsExact spec t analysis) (hb : spec.count ≤ budget.rolls)
    (name : String) (p : Value → Bool) :
    (∃ v ∈ Table.keys analysis.distribution.outcomes, p v = true) ↔
      ∃ x ∈ rolls spec, ∃ scored, Yields name spec budget (List.ofFn x) scored ∧
        p scored.total = true := by
  rw [h.exists_mem_keys_iff]
  apply exists_congr
  intro x
  rw [exists_yields_iff h hb name List.length_ofFn, Outcome.score, Outcome.total_numbers h.numeric]
  rfl

/-- The mass of a set of numbers of successes is the share of the vectors that yield one. -/
theorem massWhere_successes (h : IsExact spec t analysis) (hb : spec.count ≤ budget.rolls)
    (name : String) {c : Condition} (hs : spec.modifiers.success? = some c) :
    ∃ d, analysis.successes? = some d ∧ ∀ p : Nat → Bool,
      d.massWhere p = frequency spec fun answers ↦
        ∃ scored, Yields name spec budget answers scored ∧
          ∃ k, scored.success? = some k ∧ p k = true := by
  have counted := h.tallies.successes
  rw [hs] at counted
  cases ht : t.successes? with
  | none =>
    rw [ht] at counted
    cases counted
  | some s =>
    rw [ht] at counted
    cases counted with
    | some counted =>
      refine ⟨Distribution.ofTally s, by rw [h.successes, ht, Option.map_some], ?_⟩
      intro p
      rw [counted.massWhere_ofTally]
      apply frequency_congr
      intro answers hl _
      rw [exists_yields_iff h hb name hl, Outcome.score, hs, Option.map_some,
        Outcome.matching_numbers]
      simp only [Option.some.injEq, exists_eq_left']

end Agreement

section Exact

variable {limits budget : Limits} {analysis : Analysis}

/-- The exact distribution of totals agrees with rolling: each total has the share of the vectors
that yield it, a total is an outcome exactly if some vector yields it, and the probability of
passing is the share of the vectors that pass. -/
theorem exact_totals_agree (name : String) (hc : 0 < spec.count)
    (h : exact spec limits = .ok analysis) (hb : spec.count ≤ budget.rolls) :
    (∀ v, analysis.distribution.probability v = frequency spec fun answers ↦
      ∃ scored, Yields name spec budget answers scored ∧ scored.total = v) ∧
    (∀ v, v ∈ Table.keys analysis.distribution.outcomes ↔
      ∃ x ∈ rolls spec, ∃ scored, Yields name spec budget (List.ofFn x) scored ∧
        scored.total = v) ∧
    analysis.pass? = spec.modifiers.totalCheck?.map fun _ ↦ frequency spec fun answers ↦
      ∃ scored, Yields name spec budget answers scored ∧ scored.pass? = some true := by
  obtain ⟨t, made⟩ := isExact_of_ok hc h
  refine ⟨?_, ?_, ?_⟩
  · intro v
    rw [Distribution.probability, massWhere_totals made hb name]
    simp only [decide_eq_true_eq]
  · intro v
    have outcome := exists_outcome_iff made hb name fun k ↦ k = v
    simpa only [decide_eq_true_eq, exists_eq_right] using outcome
  · rw [made.pass]
    cases ht : spec.modifiers.totalCheck? with
    | none => rfl
    | some c =>
      rw [Option.map_some, Option.map_some, massWhere_totals made hb name]
      congr 1
      apply frequency_congr
      intro answers hl _
      rw [exists_yields_iff made hb name hl, exists_yields_iff made hb name hl]
      simp [Outcome.score, ht]

/-- Two dice with two faces of which the higher is kept, counted as a success if it is two. -/
def highestOfTwo : Spec where
  count := 2
  faces := .range 2 (by decide)
  modifiers :=
    { keep? := some ⟨.high, 1⟩, success? := some ⟨.equal, 2⟩, totalCheck? := some ⟨.greater, 1⟩ }

private theorem exists_exact_highestOfTwo : ∃ analysis, exact highestOfTwo {} = .ok analysis :=
  exists_exact_ok ⟨rfl, rfl⟩ rfl (by decide) fun _ ↦ by decide +kernel

/-- The masses of the totals of two dice are shares of their rolls. -/
theorem exact_totals_agree_highestOfTwo :
    ∃ analysis, exact highestOfTwo {} = .ok analysis ∧
      ∀ v, analysis.distribution.probability v = frequency highestOfTwo fun answers ↦
        ∃ scored, Yields "2d2k1" highestOfTwo {} answers scored ∧ scored.total = v := by
  obtain ⟨analysis, h⟩ := exists_exact_highestOfTwo
  exact ⟨analysis, h, (exact_totals_agree "2d2k1" (by decide) h (by decide)).1⟩

/-- The exact distribution of successes agrees with rolling: each number of successes has the share
of the vectors that yield it. -/
theorem exact_successes_agree (name : String) {c : Condition}
    (hs : spec.modifiers.success? = some c) (hc : 0 < spec.count)
    (h : exact spec limits = .ok analysis) (hb : spec.count ≤ budget.rolls) :
    ∃ d, analysis.successes? = some d ∧ ∀ k, d.probability k = frequency spec fun answers ↦
      ∃ scored, Yields name spec budget answers scored ∧ scored.success? = some k := by
  obtain ⟨t, made⟩ := isExact_of_ok hc h
  obtain ⟨d, hd, mass⟩ := massWhere_successes made hb name hs
  refine ⟨d, hd, ?_⟩
  intro k
  rw [Distribution.probability, mass]
  simp only [decide_eq_true_eq, exists_eq_right]

/-- The masses of the successes of two dice are shares of their rolls. -/
theorem exact_successes_agree_highestOfTwo :
    ∃ analysis, exact highestOfTwo {} = .ok analysis ∧ ∃ d, analysis.successes? = some d ∧
      ∀ k, d.probability k = frequency highestOfTwo fun answers ↦
        ∃ scored, Yields "2d2k1" highestOfTwo {} answers scored ∧ scored.success? = some k := by
  obtain ⟨analysis, h⟩ := exists_exact_highestOfTwo
  exact ⟨analysis, h, exact_successes_agree "2d2k1" rfl (by decide) h (by decide)⟩

end Exact

end DicePool.Analysis
