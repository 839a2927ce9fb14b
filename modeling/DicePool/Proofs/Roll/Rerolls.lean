import DicePool.Proofs.Modifiers.Pool
import DicePool.Proofs.Roll.Dice
import DicePool.Proofs.Roll.Limits

/-!
# Dice that are drawn again

Dice that are drawn again and again never show a value that meets the condition; if all faces meet
it, the whole budget is drawn. Dice that are drawn again once show what they fall on then.
-/

namespace DicePool

/-- A boost that changes nothing leaves narrow values alone. -/
theorem Boost.apply_of_isIdentity {b : Boost} (h : b.isIdentity = true) {v : Value}
    (narrow : v.Narrow) : b.apply v = v := by
  obtain ⟨operator, magnitude⟩ := b
  cases operator with
  | add =>
    obtain rfl := of_decide_eq_true h
    exact Value.plus_zero narrow
  | subtract =>
    obtain rfl := of_decide_eq_true h
    exact (Value.minus_eq_plus_neg v 0).trans (Value.plus_zero narrow)
  | multiply =>
    obtain rfl := of_decide_eq_true h
    have same : v * ((1 : Int) : Value) = v := mul_one v
    exact (Value.times_eq (same.symm ▸ narrow)).trans same
  | divide =>
    obtain rfl := of_decide_eq_true h
    have same : v / ((1 : Int) : Value) = v := div_one v
    exact (Value.dividedBy_eq (same.symm ▸ narrow)).trans same

/-- Without a boost, compounding or penetrating, the dice of a position count as they are listed. -/
theorem Spec.modified_position {spec : Spec}
    (hb : spec.modifiers.boost.isIdentity = true)
    (hx : ∀ x ∈ spec.modifiers.explode?, x.compound = false ∧ x.penetrate = false)
    {vs : List Value} (narrow : ∀ v ∈ vs, v.Narrow) : (spec.position vs).modified = vs := by
  have boosted : vs.map spec.modifiers.boost.apply = vs :=
    (List.map_congr_left fun v hv ↦ Boost.apply_of_isIdentity hb (narrow v hv)).trans
      (List.map_id vs)
  unfold position
  cases he : spec.modifiers.explode? with
  | none => exact boosted
  | some x =>
    obtain ⟨compound, penetrate⟩ := hx x he
    rw [← boosted]
    simp only [Explosion.position, compound, penetrate, boosted]

namespace Rolling

variable {σ : Type} [Roller σ] {spec : Spec} {numbers : List Value} {r : Reroll}

/-- Dice that are drawn again and again settle on faces that do not meet the condition. -/
private theorem unmet_of_dice {c c' : Context σ} {vs : List Value}
    (dice : Repeats (settle spec) c vs c') (fair : Roller.Fair c.source)
    (hn : spec.faces.numbers? = some numbers) (hr : spec.modifiers.reroll? = some r)
    (more : r.once = false) : ∀ v ∈ vs, v ∈ numbers ∧ r.condition.holds v = false := by
  obtain ⟨_, settled⟩ := fair_of_dice dice fair
  intro v hv
  obtain ⟨⟨answer, least, most, rfl⟩, draws, settles⟩ := settled v hv
  rw [hr] at settles
  exact ⟨FaceSet.value_mem hn least most, settles.unmet more⟩

/-- If all faces meet the condition, no die settles. -/
private theorem eq_nil_of_dice {c c' : Context σ} {vs : List Value}
    (dice : Repeats (settle spec) c vs c') (fair : Roller.Fair c.source)
    (hn : spec.faces.numbers? = some numbers) (hr : spec.modifiers.reroll? = some r)
    (more : r.once = false) (all : ∀ v ∈ numbers, r.condition.holds v = true) : vs = [] := by
  apply List.eq_nil_iff_forall_not_mem.mpr
  intro v hv
  obtain ⟨face, unmet⟩ := unmet_of_dice dice fair hn hr more v hv
  rw [all v face] at unmet
  contradiction

/-- If all faces meet the condition, positions come to nothing. -/
private theorem eq_nil_of_falls {c c' : Context σ} {rows : List (List Value)}
    (falls : Falls spec c rows c') (fair : Roller.Fair c.source)
    (hn : spec.faces.numbers? = some numbers) (hr : spec.modifiers.reroll? = some r)
    (more : r.once = false) (all : ∀ v ∈ numbers, r.condition.holds v = true) : rows = [] := by
  have none := eq_nil_of_dice falls.dice fair hn hr more all
  apply List.eq_nil_iff_forall_not_mem.mpr
  intro vs hvs
  exact (falls.ended vs hvs).ne_nil (List.flatten_eq_nil_iff.mp none vs hvs)

/-- If all faces meet the condition, a roll uses up its budget. -/
private theorem evaluate_eq_error_of_all_met {c : Context σ} (fair : Roller.Fair c.source)
    (hn : spec.faces.numbers? = some numbers) (hr : spec.modifiers.reroll? = some r)
    (more : r.once = false) (all : ∀ v ∈ numbers, r.condition.holds v = true)
    (pos : 1 ≤ spec.count) :
    ∃ c', (evaluate spec).run c = (.error (.tooManyRolls c.limits.rolls), c') ∧
      c'.remaining = 0 := by
  have numeric : spec.isNumeric = true := FaceSet.isNumeric_of_numbers? hn
  match run : (evaluate spec).run c with
  | (.ok o, c') =>
    obtain ⟨rows, length, falls, _⟩ := (evaluate_eq_ok_iff numeric).mp run
    obtain rfl := eq_nil_of_falls falls fair hn hr more all
    rw [← length] at pos
    contradiction
  | (.error e, c') =>
    obtain ⟨rows, vs, c₁, _, falls, _, c₂, dice, broken⟩ := (evaluate_eq_error_iff numeric).mp run
    obtain rfl := eq_nil_of_falls falls fair hn hr more all
    cases falls.dice
    obtain rfl := eq_nil_of_dice dice fair hn hr more all
    cases dice
    obtain ⟨long, _⟩ | ⟨_, failed⟩ := broken
    · contradiction
    · obtain ⟨rfl, spent⟩ := settle_eq_error failed
      exact ⟨c', rfl, spent⟩

/-- Whether a position shows its first draw, or its second one if the first meets a condition. -/
def ShowsSecond (condition : Condition) (draws : List Value) (f : Face) : Prop :=
  ∃ v, draws.head? = some v ∧
    if condition.holds v then ∃ w, draws = [v, w] ∧ f = .number w else draws = [v] ∧ f = .number v

/-- A die that is drawn again once shows its first or its second draw. -/
private theorem showsSecond_of_settles (once : r.once = true) {draws : List Value} {v : Value}
    (settles : Settles (some r) draws v) : ShowsSecond r.condition draws (.number v) := by
  cases settles with
  | kept unmet => exact ⟨v, rfl, by simp [unmet]⟩
  | once _ met => exact ⟨_, rfl, by simp [met]⟩
  | again more => exact absurd more (by rw [once]; decide)

/-- Positions take one draw each, and one more if the first meets the condition. -/
private theorem length_of_showsSecond {condition : Condition} {rows : List (List Value)}
    {fs : List Face} (h : List.Forall₂ (ShowsSecond condition) rows fs) :
    rows.flatten.length =
      rows.length + rows.countP fun draws ↦ draws.head?.any condition.holds := by
  induction h with
  | nil => rfl
  | @cons draws f rows fs first _ ih =>
    obtain ⟨v, head, shown⟩ := first
    rw [List.flatten_cons, List.length_append, ih, List.countP_cons, head, Option.any_some,
      List.length_cons]
    cases met : condition.holds v with
    | true =>
      obtain ⟨w, rfl, _⟩ := (if_pos met).mp shown
      simp only [List.length_cons, List.length_nil, if_true]
      omega
    | false =>
      obtain ⟨rfl, _⟩ := (if_neg (by rw [met]; decide)).mp shown
      simp only [List.length_cons, List.length_nil, Bool.false_eq_true, if_false]
      omega

/-- Dice that are drawn again and again, with those of their explosions, only show faces that do not
meet the condition, and count as such if nothing changes them; if all faces meet it, exactly the
budget is drawn. Dice that are drawn again once show the first draw of their position, or the second
one if the first meets the condition, and take just as many draws. -/
theorem evaluate_rerolls (spec : Spec) {numbers : List Value}
    (hn : spec.faces.numbers? = some numbers) {r : Reroll}
    (hr : spec.modifiers.reroll? = some r) (pos : 1 ≤ spec.count) (c : Context (Counted σ))
    (fair : Roller.Fair c.source.source) :
    (r.once = false → ∀ o c', (evaluate spec).run c = (.ok o, c') →
      (∀ f ∈ o.natural, ∃ v ∈ numbers, f = .number v ∧ r.condition.holds v = false) ∧
      (spec.modifiers.boost.isIdentity = true →
        (∀ x ∈ spec.modifiers.explode?, x.compound = false ∧ x.penetrate = false) →
        ∀ f ∈ o.modified, ∃ v ∈ numbers, f = .number v ∧ r.condition.holds v = false)) ∧
    (r.once = false → (∀ v ∈ numbers, r.condition.holds v = true) →
      ∃ state, Evaluates spec c (.error (.tooManyRolls c.limits.rolls)) state c.limits.rolls) ∧
    (r.once = true → spec.modifiers.explode? = none →
      ∀ o c', (evaluate spec).run c = (.ok o, c') →
        ∃ rows, Repeats (drawValue spec.faces) c.refilled rows.flatten c' ∧
          rows.length = spec.count ∧ List.Forall₂ (ShowsSecond r.condition) rows o.natural ∧
          c'.source.draws = c.source.draws + spec.count +
            rows.countP fun draws ↦ draws.head?.any r.condition.holds) := by
  have numeric : spec.isNumeric = true := FaceSet.isNumeric_of_numbers? hn
  have start : Roller.Fair c.refilled.source := fair.counted
  refine ⟨fun more o c' run ↦ ?_, fun more all ↦ ?_, fun once still o c' run ↦ ?_⟩
  · obtain ⟨rows, _, falls, natural, modified⟩ := (evaluate_eq_ok_iff numeric).mp run
    have unmet := unmet_of_dice falls.dice start hn hr more
    constructor
    · intro f hf
      rw [natural] at hf
      obtain ⟨v, hv, rfl⟩ := List.mem_map.mp hf
      obtain ⟨vs, hvs, hv⟩ := List.mem_flatMap.mp hv
      obtain ⟨face, unmet⟩ := unmet v (List.mem_flatten.mpr ⟨vs, hvs, spec.subset_position vs hv⟩)
      exact ⟨v, face, rfl, unmet⟩
    · intro hb hx f hf
      rw [modified] at hf
      obtain ⟨v, hv, rfl⟩ := List.mem_map.mp hf
      obtain ⟨vs, hvs, hv⟩ := List.mem_flatMap.mp ((spec.modifiers.filterPool_subperm _).subset hv)
      have narrow (w : Value) (hw : w ∈ vs) : w.Narrow :=
        FaceSet.narrow_of_numbers? hn w (unmet w (List.mem_flatten.mpr ⟨vs, hvs, hw⟩)).1
      rw [Spec.modified_position hb hx narrow] at hv
      obtain ⟨face, unmet⟩ := unmet v (List.mem_flatten.mpr ⟨vs, hvs, hv⟩)
      exact ⟨v, face, rfl, unmet⟩
  · obtain ⟨c', failed, spent⟩ := evaluate_eq_error_of_all_met fair.counted hn hr more all pos
    obtain ⟨_, left, state, calls, run, paid⟩ := exists_run spec c
    cases run.symm.trans failed
    obtain rfl : left = 0 := spent
    obtain rfl : calls = c.limits.rolls := by omega
    exact ⟨state, 0, run⟩
  · rw [run_evaluate numeric] at run
    obtain ⟨all, rolled, rfl⟩ := run_bind_pure_eq_ok_iff.mp run
    obtain ⟨vs, length, dice, rfl⟩ := (chains_eq_ok_iff_of_not_explodes still).mp rolled
    obtain ⟨rows, settle, drawn⟩ := exists_draws dice
    rw [hr] at settle
    have shown : List.Forall₂ (ShowsSecond r.condition) rows (vs.map .number) := by
      rw [List.forall₂_map_right_iff]
      exact settle.imp fun _ _ ↦ showsSecond_of_settles once
    have positions : rows.length = spec.count := settle.length_eq.trans length
    refine ⟨rows, drawn, positions, shown, ?_⟩
    rw [drawn.draws_eq, length_of_showsSecond shown, positions, Nat.add_assoc]
    rfl

private def twoDice (threshold : Int) (once : Bool) : Spec where
  count := 2
  faces := .cube
  modifiers := { reroll? := some ⟨⟨.lessEqual, threshold⟩, once⟩ }

private def counting (rolls : Nat) : Context (Counted Source) :=
  Context.new { rolls } ⟨Source.step 1 1, 0⟩

/-- Two dice that fall on one, two, three and so on: without ones and twos they show more than two;
without numbers up to six they use up five draws; drawn again once, they show two and three after
three draws. -/
theorem evaluate_rerolls_counting :
    (∃ o c', (evaluate (twoDice 2 false)).run (counting 5) = (.ok o, c') ∧
      o.natural = [.number 3, .number 4] ∧
      ∀ f ∈ o.natural, ∃ v, f = .number v ∧ (⟨.lessEqual, 2⟩ : Condition).holds v = false) ∧
    (∃ state, Evaluates (twoDice 6 false) (counting 5) (.error (.tooManyRolls 5)) state 5) ∧
    ∃ o c', (evaluate (twoDice 2 true)).run (counting 5) = (.ok o, c') ∧
      o.natural = [.number 2, .number 3] ∧
      ∃ rows, List.Forall₂ (ShowsSecond ⟨.lessEqual, 2⟩) rows o.natural ∧
        c'.source.draws = 2 + rows.countP fun draws ↦
          draws.head?.any (⟨.lessEqual, 2⟩ : Condition).holds := by
  have fair : Roller.Fair (counting 5).source.source := Roller.fair_step 1 1
  refine ⟨?_, ?_, ?_⟩
  · obtain ⟨o, c', run, natural⟩ :=
      exists_result (r := (evaluate (twoDice 2 false)).run (counting 5)) (f := Outcome.natural)
        (b := [.number 3, .number 4]) (by decide +kernel)
    obtain ⟨shows, _⟩ := evaluate_rerolls (twoDice 2 false) rfl rfl (by decide) _ fair
    obtain ⟨unmet, _⟩ := shows rfl o c' run
    refine ⟨o, c', run, natural, fun f hf ↦ ?_⟩
    obtain ⟨v, _, shown⟩ := unmet f hf
    exact ⟨v, shown⟩
  · obtain ⟨_, exhausts, _⟩ := evaluate_rerolls (twoDice 6 false) rfl rfl (by decide) _ fair
    exact exhausts rfl (by decide +kernel)
  · obtain ⟨o, c', run, natural⟩ :=
      exists_result (r := (evaluate (twoDice 2 true)).run (counting 5)) (f := Outcome.natural)
        (b := [.number 2, .number 3]) (by decide +kernel)
    obtain ⟨_, _, once⟩ := evaluate_rerolls (twoDice 2 true) rfl rfl (by decide) _ fair
    obtain ⟨rows, _, _, shown, draws⟩ := once rfl rfl o c' run
    refine ⟨o, c', run, natural, rows, shown, ?_⟩
    rw [draws, show (counting 5).source.draws = 0 from rfl, Nat.zero_add]
    rfl

end Rolling

end DicePool
