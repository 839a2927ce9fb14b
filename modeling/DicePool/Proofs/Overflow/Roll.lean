import DicePool.Proofs.Analysis.Unwrapped
import DicePool.Proofs.Roll.Closed
import DicePool.Proofs.Roll.Dice

/-!
# Rolls that check every value

Every value that a roll forms, on the way to a position or to the total, can be formed in exact
arithmetic and checked, with a trap for those that do not fit. If the numbers of a specification are
light, a fair roller takes no trap within the default budget: the roll that checks is the roll that
does not.
-/

namespace DicePool

section Checks

variable {μ : Type → Type} [Monad μ]

/-- A value that fits, or a trap. -/
def Value.checked (trap : μ Value) (v : Value) : μ Value := if v.Fits then pure v else trap

/-- What a value comes to exactly when others are added one by one, with a trap for sums that do not
fit. -/
def checkedSum (trap : μ Value) (start : Value) (values : List Value) : μ Value :=
  values.foldlM (fun sum v ↦ (sum + v).checked trap) start

/-- The values of the dice after another one: the first of them loses one if they penetrate. -/
def Explosion.extras (e : Explosion) : List Value → List Value
  | [] => []
  | x :: xs => (if e.penetrate then Value.minus x 1 else x) :: xs

/-- `Explosion.extras` in exact arithmetic, with a trap for values that do not fit. -/
def Explosion.checkedExtras (trap : μ Value) (e : Explosion) : List Value → μ (List Value)
  | [] => pure []
  | x :: xs => if e.penetrate then return (← (x - 1).checked trap) :: xs else return x :: xs

/-- `Explosion.extend` in exact arithmetic, with a trap for values that do not fit. -/
def Explosion.checkedExtend (trap : μ Value) (e : Explosion) (v b : Value) (extra : Chain) :
    μ Chain := do
  let extras ← e.checkedExtras trap extra.modified
  if e.compound then return ⟨[v], [← (b + (← checkedSum trap 0 extras)).checked trap]⟩
  else return ⟨v :: extra.natural, b :: extras⟩

/-- A value that fits takes no trap. -/
theorem Value.Fits.checked_eq {v : Value} (h : v.Fits) (trap : μ Value) :
    v.checked trap = pure v := if_pos h

/-- A die takes in the dice after it, or is followed by them. -/
theorem Explosion.extend_eq (e : Explosion) (v b : Value) (extra : Chain) :
    e.extend v b extra =
      if e.compound then ⟨[v], [Value.plus b (Value.sum (e.extras extra.modified))]⟩
      else ⟨v :: extra.natural, b :: e.extras extra.modified⟩ := by
  unfold extend extras
  rfl

variable {d m n : Nat} {values : List Value} {v b : Value}

/-- A first value loses one without wrapping around, and weighs one more at most. -/
theorem Light.minus_one (h : Light d n (v :: values)) (bearable : Bearable d (n + d)) :
    Value.minus v 1 = v - 1 ∧ Light d (n + d) ((v - 1) :: values) := by
  have one : Light d d [1] := by simpa using intCast d 1
  have before : Light d (d + n) (1 :: v :: values) := one.append h
  rw [Nat.add_comm] at before
  exact (before.perm (.swap v 1 values)).minus_eq bearable.pos bearable.light

/-- Dice that follow another one weigh one more at most. -/
theorem Explosion.light_extras (e : Explosion) (h : Light d n values)
    (bearable : Bearable d (n + d)) : Light d (n + d) (e.extras values) := by
  cases values with
  | nil => exact h.mono (Nat.le_add_right n d)
  | cons x xs =>
    show Light d _ ((if e.penetrate then Value.minus x 1 else x) :: xs)
    by_cases penetrates : e.penetrate = true
    · obtain ⟨exact, light⟩ := h.minus_one bearable
      rw [if_pos penetrates, exact]
      exact light
    · rw [if_neg penetrates]
      exact h.mono (Nat.le_add_right n d)

variable [LawfulMonad μ]

/-- Values that are not too heavy are added up without a trap. -/
theorem checkedSum_eq (trap : μ Value) (h : Light d n (v :: values)) (bearable : Bearable d n) :
    checkedSum trap v values = pure (v + values.sum) := by
  induction values generalizing v with
  | nil =>
    rw [List.sum_nil, add_zero]
    rfl
  | cons b values ih =>
    have fits : (v + b).Fits := h.merge.fits bearable _ List.mem_cons_self
    rw [checkedSum, List.foldlM_cons, fits.checked_eq, pure_bind, List.sum_cons, ← add_assoc]
    exact ih h.merge

/-- Dice that are not too heavy penetrate without a trap. -/
theorem Explosion.checkedExtras_eq (trap : μ Value) (e : Explosion) (h : Light d n values)
    (bearable : Bearable d (n + d)) : e.checkedExtras trap values = pure (e.extras values) := by
  cases values with
  | nil => rfl
  | cons x xs =>
    show (if e.penetrate then _ else _) = pure ((if e.penetrate then Value.minus x 1 else x) :: xs)
    by_cases penetrates : e.penetrate = true
    · obtain ⟨exact, light⟩ := h.minus_one bearable
      have fits : (x - 1).Fits := light.fits bearable _ List.mem_cons_self
      rw [if_pos penetrates, if_pos penetrates, fits.checked_eq, pure_bind, exact]
    · rw [if_neg penetrates, if_neg penetrates]

/-- A position is extended without a trap if its values are not too heavy. -/
theorem Explosion.checkedExtend_eq (trap : μ Value) (e : Explosion) {extra : Chain}
    (hb : Light d m [b]) (hx : Light d n extra.modified) (bearable : Bearable d (m + (n + d))) :
    e.checkedExtend trap v b extra = pure (e.extend v b extra) := by
  have others : Bearable d (n + d) := bearable.mono (Nat.le_add_left _ m)
  have extras := e.light_extras hx others
  have sum : Light d (m + (n + d)) [b, (e.extras extra.modified).sum] := hb.append extras.sum
  have fits : (b + (e.extras extra.modified).sum).Fits := sum.merge.fits_single bearable
  unfold checkedExtend
  rw [e.checkedExtras_eq trap hx others, pure_bind, extend_eq]
  by_cases compounds : e.compound = true
  · rw [if_pos compounds, if_pos compounds, checkedSum_eq trap extras.zero_cons others, pure_bind,
      zero_add, fits.checked_eq, pure_bind, extras.sum_eq others.pos others.light,
      sum.plus_eq bearable.pos bearable.light]
  · rw [if_neg compounds, if_neg compounds]

end Checks

/-- Whether a specification has few dice, with integers of bounded magnitude on them that are
boosted exactly and weigh little then, in parts of which `d` make one. -/
structure Spec.Moderate (spec : Spec) (d : Nat) : Prop where
  pos : 0 < d
  coarse : d ≤ 1000000
  count : spec.count ≤ 10000
  faces : ∀ answer, 1 ≤ answer → answer ≤ spec.faces.size →
    ∃ k : Int, spec.faces.value answer = k ∧ k.natAbs ≤ 1000000
  exact : ∀ answer, 1 ≤ answer → answer ≤ spec.faces.size →
    spec.boosted answer = spec.modifiers.boost.exactly (spec.faces.value answer)
  boosted : ∀ answer, 1 ≤ answer → answer ≤ spec.faces.size →
    Light d (1000000 * 1000000) [spec.boosted answer]
  adjustment : spec.modifiers.adjustment.natAbs ≤ 1000000

namespace Spec.Moderate

variable {spec : Spec} {d n answer : Nat} {values : List Value}

/-- The number on a face weighs little. -/
theorem face_light (h : spec.Moderate d) (least : 1 ≤ answer) (most : answer ≤ spec.faces.size) :
    Light d (1000000 * d) [spec.faces.value answer] := by
  obtain ⟨k, value, small⟩ := h.faces answer least most
  rw [value]
  exact (Light.intCast d k).mono (Nat.mul_le_mul_right d small)

/-- What the boosted dice of a budget and an adjustment weigh can be borne. -/
theorem bearable (h : spec.Moderate d) (few : n ≤ 10000) :
    Bearable d (n * (1000000 * 1000000 + d) + 1000000 * d) := by
  have coarse := h.coarse
  have dice : n * (1000000 * 1000000 + d) ≤ 10000 * (1000000 * 1000000 + 1000000) :=
    Nat.mul_le_mul few (Nat.add_le_add_left coarse _)
  exact ⟨h.pos, coarse, by omega⟩

/-- The number on a face fits. -/
theorem face_fits (h : spec.Moderate d) (least : 1 ≤ answer) (most : answer ≤ spec.faces.size) :
    (spec.faces.value answer).Fits :=
  (h.face_light least most).fits_single ((h.bearable (Nat.zero_le _)).mono (Nat.le_add_left _ _))

/-- The adjustment weighs little. -/
theorem adjusted_light (h : spec.Moderate d) (light : Light d n values) :
    Light d (n + 1000000 * d) ((spec.modifiers.adjustment : Value) :: values) := by
  have adjustment := (Light.intCast d spec.modifiers.adjustment).mono
    (Nat.mul_le_mul_right d h.adjustment)
  exact Nat.add_comm n _ ▸ adjustment.append light

/-- What values come to with the adjustment is exact and fits if there is room for it. -/
theorem fits_adjusted (h : spec.Moderate d) (light : Light d n values)
    (bearable : Bearable d (n + 1000000 * d)) :
    Value.plus (Value.sum values) spec.modifiers.adjustment =
        values.sum + spec.modifiers.adjustment ∧
      (values.sum + (spec.modifiers.adjustment : Value)).Fits := by
  have all := h.adjusted_light light
  refine ⟨all.sum_plus_eq bearable.pos bearable.light, ?_⟩
  have sum := all.sum.fits_single bearable
  rwa [List.sum_cons, add_comm] at sum

/-- The boosted dice of a roll weigh little. -/
theorem boosted_light (h : spec.Moderate d) {answers : List Nat}
    (within : ∀ answer ∈ answers, 1 ≤ answer ∧ answer ≤ spec.faces.size) :
    Light d (answers.length * (1000000 * 1000000 + d)) (answers.map spec.boosted) := by
  apply Light.map
  intro answer ha
  obtain ⟨least, most⟩ := within answer ha
  exact (h.boosted answer least most).mono (Nat.le_add_right _ d)

/-- No roll of a moderate specification wraps around. -/
theorem unwrapped (h : spec.Moderate d) : spec.Unwrapped where
  boosted := h.exact
  addable answers length within := by
    have few : answers.length ≤ 10000 := length.le.trans h.count
    exact (h.adjusted_light (h.boosted_light within)).addable (h.bearable few)

end Spec.Moderate

namespace Rolling

variable {σ : Type} [Roller σ]

/-- The value that a die settles on and its boosted value in exact arithmetic, with a trap for those
that do not fit. -/
def checkedDie (trap : Rolling σ Value) (spec : Spec) : Rolling σ (Value × Value) := do
  let v ← (← settle spec).checked trap
  return (v, ← (spec.modifiers.boost.exactly v).checked trap)

/-- `chain` in exact arithmetic, with a trap for values that do not fit. -/
def checkedChain (trap : Rolling σ Value) (spec : Spec) (allowance : Nat) : Rolling σ Chain := do
  let (v, b) ← checkedDie trap spec
  match spec.modifiers.explode? with
  | none => return ⟨[v], [b]⟩
  | some e =>
    if e.condition.holds b then
      match allowance with
      | 0 => throw (.explosionDepthExceeded (← get).limits.explosionDepth)
      | left + 1 => e.checkedExtend trap v b (← checkedChain trap spec left)
    else return ⟨[v], [b]⟩

/-- `chains` with a trap for values that do not fit. -/
def checkedChains (trap : Rolling σ Value) (spec : Spec) : (dice : Nat) → Rolling σ Chain
  | 0 => return ⟨[], []⟩
  | dice + 1 => do
    let first ← checkedChain trap spec (← get).limits.explosionDepth
    let rest ← checkedChains trap spec dice
    return ⟨first.natural ++ rest.natural, first.modified ++ rest.modified⟩

/-- `evaluate` with a trap for values that do not fit. -/
def checkedEvaluate (trap : Rolling σ Value) (spec : Spec) : Rolling σ Outcome := do
  refill
  if spec.isNumeric then
    let all ← checkedChains trap spec spec.count
    return ⟨all.natural.map .number, (spec.modifiers.filterPool all.modified).map .number⟩
  else
    let faces ← drawMany spec.faces spec.count
    return ⟨faces, faces⟩

/-- `total` in exact arithmetic, with a trap for values that do not fit. -/
def checkedTotal (trap : Rolling σ Value) (spec : Spec) : Rolling σ Value := do
  let o ← checkedEvaluate trap spec
  if spec.isNumeric then
    let sum ← checkedSum trap 0 (o.modified.filterMap Face.number?)
    (sum + (spec.modifiers.adjustment : Value)).checked trap
  else return 0

variable {spec : Spec} {d : Nat} {c c' : Context σ} {vs : List Value}

/-- Dice of a fair roller settle on values that fit, are boosted exactly, and weigh little then. -/
private theorem moderate_of_dice (h : spec.Moderate d) (fair : Roller.Fair c.source)
    (dice : Repeats (settle spec) c vs c') : ∀ v ∈ vs, v.Fits ∧
      spec.modifiers.boost.apply v = spec.modifiers.boost.exactly v ∧
      Light d (1000000 * 1000000) [spec.modifiers.boost.apply v] := by
  obtain ⟨_, settled⟩ := fair_of_dice dice fair
  intro v hv
  obtain ⟨⟨answer, least, most, rfl⟩, _⟩ := settled v hv
  exact ⟨h.face_fits least most, h.exact answer least most, h.boosted answer least most⟩

/-- What is added up of the dice of a fair roller weighs little. -/
private theorem light_addends (h : spec.Moderate d) (fair : Roller.Fair c.source)
    (dice : Repeats (settle spec) c vs c') : Light d (vs.length * (1000000 * 1000000 + d))
      (Value.addends (vs.map spec.modifiers.boost.apply)) := by
  have each : ∀ b ∈ vs.map spec.modifiers.boost.apply, Light d (1000000 * 1000000) [b] :=
    List.forall_mem_map.mpr fun v hv ↦ (moderate_of_dice h fair dice v hv).2.2
  have all := Light.addends each
  rwa [List.length_map] at all

variable (trap : Rolling σ Value)

/-- The dice after a die are a position that leaves room for it. -/
private theorem light_of_chain (h : spec.Moderate d) (fair : Roller.Fair c.source)
    (budget : c.remaining ≤ 10000) {allowance : Nat} {ch : Chain}
    (run : (chain spec allowance).run c = (.ok ch, c')) :
    ∃ n, n + c'.remaining ≤ c.remaining ∧ Roller.Fair c'.source ∧
      Light d (n * (1000000 * 1000000 + d)) ch.modified := by
  obtain ⟨vs, _, _, dice, rfl⟩ := chain_eq_ok_iff.mp run
  have spent := length_add_remaining_le dice
  have bearable := (h.bearable (n := vs.length) (by omega)).mono (Nat.le_add_right _ _)
  have light := light_addends h fair dice
  rw [← List.append_nil (Value.addends _)] at light
  have position := light.position bearable.pos bearable.light spec
  rw [List.append_nil] at position
  exact ⟨vs.length, spent, (fair_of_dice dice fair).1, position⟩

/-- A die and its boost take no trap. -/
private theorem run_checkedDie_bind {α : Type} {f : Value × Value → Rolling σ α}
    {g : Value → Rolling σ α} (h : spec.Moderate d) (fair : Roller.Fair c.source)
    (hfg : ∀ v c₁, (settle spec).run c = (.ok v, c₁) →
      Light d (1000000 * 1000000) [spec.modifiers.boost.apply v] →
      (f (v, spec.modifiers.boost.apply v)).run c₁ = (g v).run c₁) :
    (checkedDie trap spec >>= f).run c = (settle spec >>= g).run c := by
  rw [checkedDie, bind_assoc]
  apply run_bind_congr rfl
  intro v c₁ settled
  obtain ⟨fits, exact, light⟩ :=
    moderate_of_dice h fair (.one settled) v (List.mem_singleton_self v)
  have boosted : (spec.modifiers.boost.apply v).Fits :=
    light.fits_single ((h.bearable (Nat.le_succ 9999)).mono (by omega))
  rw [fits.checked_eq, pure_bind, ← exact, boosted.checked_eq, pure_bind, pure_bind]
  exact hfg v c₁ settled light

/-- A die and its explosions take no trap. -/
private theorem run_checkedChain (h : spec.Moderate d) (allowance : Nat)
    (fair : Roller.Fair c.source) (budget : c.remaining ≤ 10000) :
    (checkedChain trap spec allowance).run c = (chain spec allowance).run c := by
  induction allowance generalizing c with
  | zero =>
    unfold checkedChain chain
    apply run_checkedDie_bind trap h fair
    intro v c₁ _ _
    rfl
  | succ allowance ih =>
    unfold checkedChain chain
    apply run_checkedDie_bind trap h fair
    intro v c₁ settled light
    cases spec.modifiers.explode? with
    | none => rfl
    | some e =>
      by_cases explodes : e.condition.holds (spec.modifiers.boost.apply v) = true
      · simp only [if_pos explodes]
        have spent := length_add_remaining_le (.one settled)
        have next := (fair_of_dice (.one settled) fair).1
        rw [List.length_singleton] at spent
        apply run_bind_congr (ih next (by omega))
        intro ch c₂ rest
        obtain ⟨n, within, _, weighs⟩ := light_of_chain h next (by omega) rest
        have bearable := h.bearable (n := 1 + n) (by omega)
        rw [Nat.add_mul, Nat.one_mul] at bearable
        rw [e.checkedExtend_eq trap light weighs (bearable.mono (by omega))]
      · simp only [if_neg explodes]

/-- Dice take no trap. -/
private theorem run_checkedChains (h : spec.Moderate d) (dice : Nat)
    (fair : Roller.Fair c.source) (budget : c.remaining ≤ 10000) :
    (checkedChains trap spec dice).run c = (chains spec dice).run c := by
  induction dice generalizing c with
  | zero => rfl
  | succ dice ih =>
    unfold checkedChains chains
    apply run_bind_congr rfl
    rintro _ _ ⟨⟩
    apply run_bind_congr (run_checkedChain trap h _ fair budget)
    intro first c₁ ran
    obtain ⟨n, within, next, _⟩ := light_of_chain h fair budget ran
    exact run_bind_congr (ih next (by omega)) fun _ _ _ ↦ rfl

/-- A roll takes no trap. -/
private theorem run_checkedEvaluate (h : spec.Moderate d)
    (fair : Roller.Fair c.source) (budget : c.limits.rolls ≤ 10000) :
    (checkedEvaluate trap spec).run c = (evaluate spec).run c := by
  unfold checkedEvaluate evaluate
  rw [run_bind_of_ok (run_refill c), run_bind_of_ok (run_refill c)]
  cases spec.isNumeric with
  | true => exact run_bind_congr (run_checkedChains trap h _ fair budget) fun _ _ _ ↦ rfl
  | false => rfl

/-- Numbers among drawn faces fit, and together weigh little. -/
private theorem light_of_draws {fs : List Face} (h : spec.Moderate d)
    (length : fs.length = spec.count)
    (faces : ∀ f ∈ fs, ∃ answer, 1 ≤ answer ∧ answer ≤ spec.faces.size ∧
      f = spec.faces.face answer) :
    ∃ n, Light d n (fs.filterMap Face.number?) ∧ Bearable d (n + 1000000 * d) := by
  have few : (fs.filterMap Face.number?).length ≤ 10000 :=
    (List.length_filterMap_le _ fs).trans (length.le.trans h.count)
  have each : ∀ v ∈ fs.filterMap Face.number?, Light d (1000000 * 1000000 + d) [id v] := by
    intro v hv
    obtain ⟨f, hf, number⟩ := List.mem_filterMap.mp hv
    obtain ⟨answer, least, most, rfl⟩ := faces f hf
    have value : spec.faces.value answer = v := by rw [FaceSet.value, number, Option.getD_some]
    have coarse := Nat.mul_le_mul_left 1000000 h.coarse
    exact (value ▸ h.face_light least most).mono (by omega)
  have all := Light.map each
  rw [List.map_id] at all
  exact ⟨_, all, h.bearable few⟩

/-- Dice that show labels are drawn, and count as they are listed. -/
private theorem evaluate_eq_ok_of_labels (hn : spec.isNumeric = false) {o : Outcome}
    (run : (evaluate spec).run c = (.ok o, c')) :
    o.natural = o.modified ∧
      (drawMany spec.faces spec.count).run c.refilled = (.ok o.modified, c') := by
  unfold evaluate at run
  rw [run_bind_of_ok (run_refill c), hn, if_neg (by decide)] at run
  obtain ⟨fs, drawn, rfl⟩ := run_bind_pure_eq_ok_iff.mp run
  exact ⟨rfl, drawn⟩

/-- What counts of a roll weighs so little that the adjustment can be added. -/
private theorem exists_light (h : spec.Moderate d) (fair : Roller.Fair c.source)
    (budget : c.limits.rolls ≤ 10000) {o : Outcome} (run : (evaluate spec).run c = (.ok o, c')) :
    ∃ n, Light d n (o.modified.filterMap Face.number?) ∧ Bearable d (n + 1000000 * d) := by
  have start : Roller.Fair c.refilled.source := fair
  cases hn : spec.isNumeric with
  | true =>
    obtain ⟨rows, _, falls, _, modified⟩ := (evaluate_eq_ok_iff hn).mp run
    have few : rows.flatten.length + c'.remaining ≤ c.limits.rolls :=
      length_add_remaining_le falls.dice
    have bearable := h.bearable (n := rows.flatten.length) (by omega)
    have sums := bearable.mono (Nat.le_add_right _ _)
    have light := light_addends h start falls.dice
    rw [← List.append_nil (Value.addends _)] at light
    have positions := light.positions sums.pos sums.light spec
    rw [List.append_nil] at positions
    rw [modified, filterMap_number]
    exact ⟨_, positions.subperm (spec.modifiers.filterPool_subperm _), bearable⟩
  | false =>
    obtain ⟨_, drawn⟩ := evaluate_eq_ok_of_labels hn run
    obtain ⟨length, draws⟩ := drawMany_eq_ok drawn
    exact light_of_draws h length (face_of_draws draws start)

/-- Every number among the faces that count fits. -/
theorem fits_of_mem_modified (h : spec.Moderate d) (fair : Roller.Fair c.source)
    (budget : c.limits.rolls ≤ 10000) {o : Outcome} (run : (evaluate spec).run c = (.ok o, c'))
    {f : Face} (hf : f ∈ o.modified) {v : Value} (hv : v ∈ f.number?) : v.Fits := by
  obtain ⟨n, light, bearable⟩ := exists_light h fair budget run
  have number : v ∈ o.modified.filterMap Face.number? := List.mem_filterMap.mpr ⟨f, hf, hv⟩
  exact light.fits (bearable.mono (Nat.le_add_right n _)) v number

/-- Every number among the listed faces fits. -/
theorem fits_of_mem_natural (h : spec.Moderate d) (fair : Roller.Fair c.source)
    (budget : c.limits.rolls ≤ 10000) {o : Outcome} (run : (evaluate spec).run c = (.ok o, c'))
    {f : Face} (hf : f ∈ o.natural) {v : Value} (hv : v ∈ f.number?) : v.Fits := by
  cases hn : spec.isNumeric with
  | true =>
    obtain ⟨rows, _, falls, natural, _⟩ := (evaluate_eq_ok_iff hn).mp run
    have start : Roller.Fair c.refilled.source := fair
    rw [natural] at hf
    obtain ⟨w, hw, rfl⟩ := List.mem_map.mp hf
    obtain rfl := Option.some.inj hv
    obtain ⟨vs, hvs, hw⟩ := List.mem_flatMap.mp hw
    have settled := List.mem_flatten.mpr ⟨vs, hvs, spec.subset_position vs hw⟩
    exact (moderate_of_dice h start falls.dice w settled).1
  | false =>
    rw [(evaluate_eq_ok_of_labels hn run).1] at hf
    exact fits_of_mem_modified h fair budget run hf hv

/-- Some of the values that count come to a sum that is exact and fits. -/
theorem fits_sum (h : spec.Moderate d) (fair : Roller.Fair c.source)
    (budget : c.limits.rolls ≤ 10000) {o : Outcome} (run : (evaluate spec).run c = (.ok o, c'))
    {part : List Value} (some : part.Subperm (o.modified.filterMap Face.number?)) :
    Value.sum part = part.sum ∧ part.sum.Fits := by
  obtain ⟨n, light, bearable⟩ := exists_light h fair budget run
  have sums := bearable.mono (Nat.le_add_right n _)
  have those := light.subperm some
  exact ⟨those.sum_eq sums.pos sums.light, those.sum.fits_single sums⟩

/-- The total of a roll fits. -/
theorem fits_total (h : spec.Moderate d) (fair : Roller.Fair c.source)
    (budget : c.limits.rolls ≤ 10000) {o : Outcome} (run : (evaluate spec).run c = (.ok o, c')) :
    (o.total spec).Fits := by
  unfold Outcome.total
  cases spec.isNumeric with
  | true =>
    obtain ⟨n, light, bearable⟩ := exists_light h fair budget run
    obtain ⟨exact, fits⟩ := h.fits_adjusted light bearable
    exact exact ▸ fits
  | false =>
    show Value.Fits 0
    decide

/-- A total takes no trap. -/
theorem run_checkedTotal (h : spec.Moderate d) (fair : Roller.Fair c.source)
    (budget : c.limits.rolls ≤ 10000) :
    (checkedTotal trap spec).run c = (total spec).run c := by
  unfold checkedTotal total
  apply run_bind_congr (run_checkedEvaluate trap h fair budget)
  intro o c' run
  unfold Outcome.total
  cases spec.isNumeric with
  | true =>
    obtain ⟨n, light, bearable⟩ := exists_light h fair budget run
    obtain ⟨exact, fits⟩ := h.fits_adjusted light bearable
    have sums : Bearable d n := bearable.mono (Nat.le_add_right n _)
    simp only [if_true]
    rw [checkedSum_eq trap light.zero_cons sums, pure_bind, zero_add, fits.checked_eq, exact]
  | false => rfl

/-- What a fair roller rolls within the budget can be added up in any order and grouping. -/
theorem addable_of_falls (h : spec.Moderate d) (fair : Roller.Fair c.source)
    (budget : c.limits.rolls ≤ 10000) {rows : List (List Value)}
    (falls : Falls spec c.refilled rows c') : Addable (spec.addends rows) := by
  have few : rows.flatten.length + c'.remaining ≤ c.limits.rolls :=
    length_add_remaining_le falls.dice
  have start : Roller.Fair c.refilled.source := fair
  have adjusted := h.adjusted_light (light_addends h start falls.dice)
  have ordered := adjusted.perm (List.perm_append_singleton _ _).symm
  exact ordered.addable (h.bearable (by omega))

end Rolling

end DicePool
