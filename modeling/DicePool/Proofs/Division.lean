import DicePool.Proofs.Analysis.Exact
import DicePool.Roll.Score
import Mathlib.Algebra.Order.Ring.Rat

/-!
# Divisions

Rolling divides by the magnitude of a boost, and analysing by the total of a tally as well. Here
both are done with a trap at every division: an action that is taken where the divisor is zero. A
specification whose boost does not divide by zero is rolled and analysed in the same way whatever
the trap is, so that it is never taken. All other divisors are constants or factorials.
-/

namespace DicePool

section Operators

variable {m : Type → Type} [Monad m]

/-- A quotient, or what the trap comes to if its divisor is zero. -/
def quotientOr (trap : m Value) (divisor quotient : Value) : m Value :=
  if divisor = 0 then trap else pure quotient

/-- The result of an operator, or what the trap comes to if it divides by zero. -/
def Arithmetic.applyOr (trap : m Value) (o : Arithmetic) (a b : Value) : m Value :=
  match o with
  | divide => quotientOr trap b (divide.apply a b)
  | o => pure (o.apply a b)

/-- The boosted value of a die, or what the trap comes to if the boost divides by zero. -/
def Boost.applyOr (trap : m Value) (b : Boost) (v : Value) : m Value :=
  b.operator.applyOr trap v b.magnitude

/-- Whether a boost has a result for every die. -/
def Boost.Total (b : Boost) : Prop := ¬(b.operator = .divide ∧ b.magnitude = 0)

/-- A boost that does not divide by zero takes no trap. -/
theorem Boost.applyOr_eq (trap : m Value) {b : Boost} (h : b.Total) (v : Value) :
    b.applyOr trap v = pure (b.apply v) := by
  obtain ⟨operator, magnitude⟩ := b
  cases operator with
  | divide =>
    have divisor : ((magnitude : Int) : Value) ≠ 0 := by
      intro zero
      exact h ⟨rfl, Int.cast_eq_zero.mp zero⟩
    exact if_neg divisor
  | _ => rfl

end Operators

namespace Rolling

variable {σ : Type} [Roller σ]

/-- `chain` with a trap. -/
def chainOr (trap : Rolling σ Value) (spec : Spec) (allowance : Nat) : Rolling σ Chain := do
  let v ← settle spec
  let b ← spec.modifiers.boost.applyOr trap v
  match spec.modifiers.explode? with
  | none => return ⟨[v], [b]⟩
  | some e =>
    if e.condition.holds b then
      match allowance with
      | 0 => throw (.explosionDepthExceeded (← get).limits.explosionDepth)
      | left + 1 => return e.extend v b (← chainOr trap spec left)
    else return ⟨[v], [b]⟩

/-- `chains` with a trap. -/
def chainsOr (trap : Rolling σ Value) (spec : Spec) : (dice : Nat) → Rolling σ Chain
  | 0 => return ⟨[], []⟩
  | dice + 1 => do
    let first ← chainOr trap spec (← get).limits.explosionDepth
    let rest ← chainsOr trap spec dice
    return ⟨first.natural ++ rest.natural, first.modified ++ rest.modified⟩

/-- `evaluate` with a trap. -/
def evaluateOr (trap : Rolling σ Value) (spec : Spec) : Rolling σ Outcome := do
  refill
  if spec.isNumeric then
    let all ← chainsOr trap spec spec.count
    return ⟨all.natural.map .number, (spec.modifiers.filterPool all.modified).map .number⟩
  else
    let faces ← drawMany spec.faces spec.count
    return ⟨faces, faces⟩

variable (trap : Rolling σ Value) {spec : Spec}

/-- A die and its explosions take no trap. -/
theorem chainOr_eq (h : spec.modifiers.boost.Total) (allowance : Nat) :
    chainOr trap spec allowance = chain spec allowance := by
  have boosted := Boost.applyOr_eq trap h
  induction allowance with
  | zero =>
    unfold chainOr chain
    cases spec.modifiers.explode? with
    | none => simp only [boosted, pure_bind]
    | some e => simp only [boosted, pure_bind]
  | succ allowance ih =>
    unfold chainOr chain
    cases spec.modifiers.explode? with
    | none => simp only [boosted, pure_bind]
    | some e => simp only [boosted, pure_bind, ih]

/-- Dice take no trap. -/
theorem chainsOr_eq (h : spec.modifiers.boost.Total) (dice : Nat) :
    chainsOr trap spec dice = chains spec dice := by
  induction dice with
  | zero => rfl
  | succ dice ih =>
    unfold chainsOr chains
    simp only [chainOr_eq trap h, ih]

/-- A roll takes no trap if its boost does not divide by zero, or is not asked for. -/
theorem evaluateOr_eq (h : spec.isNumeric = true → spec.modifiers.boost.Total) :
    evaluateOr trap spec = evaluate spec := by
  unfold evaluateOr evaluate
  cases hn : spec.isNumeric with
  | true => simp only [if_true, chainsOr_eq trap (h hn)]
  | false => rfl

/-- A boost that divides by zero, which no expression asks for, takes the trap. -/
example : ((evaluateOr (throw .noSamples) ⟨1, .range 6 (by decide),
    { boost? := some ⟨.divide, 0⟩ }, []⟩).run (Context.new {} (Script.mk [3]))).1.toOption =
      none := by
  decide +kernel

end Rolling

/-- `Distribution.ofTally` with a trap. -/
def Distribution.ofTallyOr {K : Type} (trap : Except Error Value) (t : Tally K) :
    Except Error (Distribution K) := do
  return ⟨← t.counts.mapM fun e ↦ do
    return (e.1, ← quotientOr trap (t.total : Value) ((e.2 : Value) / (t.total : Value)))⟩

/-- The masses of a tally whose total is not zero take no trap. -/
theorem Distribution.ofTallyOr_eq {K : Type} (trap : Except Error Value) {t : Tally K}
    (h : t.total ≠ 0) : ofTallyOr trap t = .ok (ofTally t) := by
  have divisor : (t.total : Value) ≠ 0 := Nat.cast_ne_zero.mpr h
  unfold ofTallyOr
  simp only [quotientOr, if_neg divisor, pure_bind, List.mapM_pure]
  rfl

namespace Analysis

/-- `single` with a trap. -/
def singleOr (trap : Except Error Value) (spec : Spec) (numbers : List Value) :
    Except Error (Tally Value) := do
  return Tally.ofList (← numbers.mapM (spec.modifiers.boost.applyOr trap))

/-- `exact` with a trap. -/
def exactOr (trap : Except Error Value) (spec : Spec) (limits : Limits) :
    Except Error Analysis := do
  if spec.modifiers.contains .explode then throw (.unsupportedModifier .explode)
  if spec.modifiers.contains .reroll then throw (.unsupportedModifier .reroll)
  match spec.faces.numbers? with
  | none => throw (.nonNumericFaces spec.faces.kind)
  | some numbers =>
    let die ← singleOr trap spec numbers
    let tallies ← if spec.modifiers.selects then pooled spec limits die
      else pure (independent spec die)
    let adjustment : Value := spec.modifiers.adjustment
    let distribution := (← Distribution.ofTallyOr trap tallies.totals).map (Value.plus · adjustment)
    let successes? ← tallies.successes?.mapM (Distribution.ofTallyOr trap)
    let pass? := spec.modifiers.totalCheck?.map fun c ↦ distribution.massWhere c.holds
    match Analysis.of? distribution successes? pass? .exact with
    | some analysis => return analysis
    | none => throw .noSamples

variable (trap : Except Error Value) {spec : Spec} {numbers : List Value}

/-- The tally of one die takes no trap. -/
private theorem singleOr_eq (h : spec.modifiers.boost.Total) (numbers : List Value) :
    singleOr trap spec numbers = .ok (single spec numbers) := by
  have boosted : spec.modifiers.boost.applyOr trap = fun v ↦ pure (spec.modifiers.boost.apply v) :=
    funext (Boost.applyOr_eq trap h)
  rw [singleOr, boosted, List.mapM_pure]
  rfl

/-- The tallies of all rolls take no trap. -/
private theorem ofTallyOr_of_ofRolls {t : Tallies} (h : t.OfRolls spec) :
    Distribution.ofTallyOr trap t.totals = .ok (Distribution.ofTally t.totals) ∧
      t.successes?.mapM (Distribution.ofTallyOr trap) =
        .ok (t.successes?.map Distribution.ofTally) := by
  have rolls : spec.faces.size ^ spec.count ≠ 0 := pow_ne_zero _ spec.faces.size_pos.ne'
  constructor
  · exact Distribution.ofTallyOr_eq trap (by rwa [h.totals.total])
  · have successes := h.successes
    generalize t.successes? = s? at successes ⊢
    generalize spec.modifiers.success? = c? at successes
    cases successes with
    | none => rfl
    | some counts =>
      have taken := Distribution.ofTallyOr_eq trap (t := _) (by rwa [counts.total])
      rw [Option.mapM_some, taken]
      rfl

/-- An analysis takes no trap if its boost does not divide by zero. -/
theorem exactOr_eq (h : spec.isNumeric = true → spec.modifiers.boost.Total) (hc : 0 < spec.count)
    (limits : Limits) : exactOr trap spec limits = exact spec limits := by
  unfold exactOr exact
  cases hn : spec.faces.numbers? with
  | none => rfl
  | some numbers =>
    have total : spec.modifiers.boost.Total := h (FaceSet.isNumeric_of_numbers? hn)
    simp only [singleOr_eq trap total numbers]
    -- explosions and rerolls are refused alike
    congr 1
    congr 1
    cases hs : spec.modifiers.selects with
    | false =>
      obtain ⟨totals, successes⟩ := ofTallyOr_of_ofRolls trap (ofRolls_independent hn hc hs)
      simp only [bind, pure, Except.bind, Except.pure, totals, successes]
      rfl
    | true =>
      cases hp : pooled spec limits (single spec numbers) with
      | error e =>
        simp only [bind, Except.bind, hp]
        rfl
      | ok t =>
        obtain ⟨totals, successes⟩ := ofTallyOr_of_ofRolls trap (ofRolls_pooled hn hs hp)
        simp only [bind, Except.bind, hp, totals, successes]
        rfl

end Analysis

end DicePool
