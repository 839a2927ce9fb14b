import DicePool.Proofs.Roll.Blocks
import DicePool.Proofs.Roll.Script
import DicePool.Roller.Source
import Mathlib.Control.Monad.Basic

/-!
# Limits cut a roll short and never change it

Two runs of a roll are compared, the second from a context with more of each limit. They go the same
way for as long as the first one has budget and depth left. A run that succeeds is therefore the
same under all wider limits; one that lacks budget has drawn all of it, and stays as it is when only
the depth grows; one that lacks depth stays as it is when only the budget grows.
-/

namespace DicePool

variable {σ α β : Type}

namespace Context

/-- Whether a second context has the roller of a first one, and so much more budget and depth. -/
structure Wider (more deeper : Nat) (c c' : Context (Counted σ)) : Prop where
  state : c'.source.source = c.source.source
  remaining : c'.remaining = c.remaining + more
  rolls : c'.limits.rolls = c.limits.rolls + more
  depth : c'.limits.explosionDepth = c.limits.explosionDepth + deeper

/-- Whether a second context has the roller of a first one, and limits that are no lower. -/
structure Looser (c c' : Context (Counted σ)) : Prop where
  state : c'.source.source = c.source.source
  rolls : c.limits.rolls ≤ c'.limits.rolls
  depth : c.limits.explosionDepth ≤ c'.limits.explosionDepth

/-- A context is as loose as itself. -/
theorem Looser.refl (c : Context (Counted σ)) : c.Looser c := ⟨rfl, Nat.le_refl _, Nat.le_refl _⟩

end Context

namespace Rolling

/-- What a run comes to, and what the run from a wider context comes to. A first run without budget
says nothing about a second one with more of it, nor one without depth about one with more depth. -/
inductive Agrees (more deeper : Nat) :
    Except Error α × Context (Counted σ) → Except Error α × Context (Counted σ) → Prop
  | ok {a : α} {c c' : Context (Counted σ)} (wider : c.Wider more deeper c') :
    Agrees more deeper (.ok a, c) (.ok a, c')
  | tooManyRolls {c : Context (Counted σ)} {limit : Nat} {r : Except Error α × Context (Counted σ)}
    (reached : limit = c.limits.rolls) (spent : c.remaining = 0)
    (same : more = 0 → ∃ c', r = (.error (.tooManyRolls limit), c') ∧ c.Wider more deeper c') :
    Agrees more deeper (.error (.tooManyRolls limit), c) r
  | tooDeep {c : Context (Counted σ)} {limit : Nat} {r : Except Error α × Context (Counted σ)}
    (reached : limit = c.limits.explosionDepth)
    (same : deeper = 0 → ∃ c', r = (.error (.explosionDepthExceeded limit), c') ∧
      c.Wider more deeper c') :
    Agrees more deeper (.error (.explosionDepthExceeded limit), c) r

namespace Agrees

variable {more deeper : Nat}

/-- What follows on runs that agree agrees if it does so after a success. -/
theorem bind {x y : Rolling (Counted σ) α} {f g : α → Rolling (Counted σ) β}
    {c c' : Context (Counted σ)} (h : Agrees more deeper (x.run c) (y.run c'))
    (hf : ∀ a c₁ c₁', x.run c = (.ok a, c₁) → c₁.Wider more deeper c₁' →
      Agrees more deeper ((f a).run c₁) ((g a).run c₁')) :
    Agrees more deeper ((x >>= f).run c) ((y >>= g).run c') := by
  rw [run_bind, run_bind]
  generalize x.run c = r at h hf
  generalize y.run c' = r' at h
  cases h with
  | ok wider => exact hf _ _ _ rfl wider
  | tooManyRolls reached spent same =>
    apply Agrees.tooManyRolls reached spent
    intro zero
    obtain ⟨c₁, rfl, wider⟩ := same zero
    exact ⟨c₁, rfl, wider⟩
  | tooDeep reached same =>
    apply Agrees.tooDeep reached
    intro zero
    obtain ⟨c₁, rfl, wider⟩ := same zero
    exact ⟨c₁, rfl, wider⟩

/-- The second run comes to what the first one does, unless it has more of what that one lacks. -/
theorem same {result : Except Error α} {c : Context (Counted σ)}
    {r : Except Error α × Context (Counted σ)} (h : Agrees more deeper (result, c) r)
    (budget : ∀ limit, result = .error (.tooManyRolls limit) → more = 0)
    (depth : ∀ limit, result = .error (.explosionDepthExceeded limit) → deeper = 0) :
    ∃ c', r = (result, c') ∧ c.Wider more deeper c' := by
  cases h with
  | ok wider => exact ⟨_, rfl, wider⟩
  | tooManyRolls _ _ same => exact same (budget _ rfl)
  | tooDeep _ same => exact same (depth _ rfl)

end Agrees

/-- Whether a second action agrees with a first one on all wider contexts. -/
def Widens (more deeper : Nat) (x y : Rolling (Counted σ) α) : Prop :=
  ∀ c c' : Context (Counted σ), c.Wider more deeper c' → Agrees more deeper (x.run c) (y.run c')

namespace Widens

variable {more deeper : Nat}

/-- A finished action agrees with itself. -/
theorem pure (a : α) : Widens more deeper (Pure.pure a : Rolling (Counted σ) α) (Pure.pure a) :=
  fun _ _ wider ↦ .ok wider

/-- Actions that agree step by step agree. -/
theorem bind {x y : Rolling (Counted σ) α} {f g : α → Rolling (Counted σ) β}
    (h : Widens more deeper x y) (hf : ∀ a, Widens more deeper (f a) (g a)) :
    Widens more deeper (x >>= f) (y >>= g) :=
  fun c c' wider ↦ (h c c' wider).bind fun a _ _ _ wider ↦ hf a _ _ wider

/-- Actions may look at the contexts on which they agree. -/
theorem get_bind {f g : Context (Counted σ) → Rolling (Counted σ) α}
    (h : ∀ c c', c.Wider more deeper c' → Agrees more deeper ((f c).run c) ((g c').run c')) :
    Widens more deeper (get >>= f) (get >>= g) := h

/-- Nothing is said about an action with more depth if the first one fails for want of it. -/
theorem exceeded {y : Rolling (Counted σ) α}
    (h : deeper = 0 → y = do throw (.explosionDepthExceeded (← get).limits.explosionDepth)) :
    Widens more deeper (do throw (.explosionDepthExceeded (← get).limits.explosionDepth)) y := by
  intro c c' wider
  apply Agrees.tooDeep rfl
  intro zero
  refine ⟨c', ?_, wider⟩
  rw [h zero, run_bind_of_ok (run_get c'), run_throw, wider.depth, zero, Nat.add_zero]

end Widens

variable [Roller σ] {more deeper : Nat}

/-- A draw agrees with itself. -/
private theorem widens_draw (faces : FaceSet) :
    Widens more deeper (draw faces : Rolling (Counted σ) Face) (draw faces) := by
  intro c c' wider
  cases left : c.remaining with
  | zero =>
    rw [run_draw_of_remaining_eq_zero _ _ left]
    apply Agrees.tooManyRolls rfl left
    intro zero
    refine ⟨c', ?_, wider⟩
    have left' : c'.remaining = 0 := by rw [wider.remaining, left, zero]
    rw [run_draw_of_remaining_eq_zero _ _ left', wider.rolls, zero, Nat.add_zero]
  | succ n =>
    have left' : c'.remaining = (n + more) + 1 := by rw [wider.remaining, left]; omega
    have answer : (Roller.roll c'.source faces.size).1 = (Roller.roll c.source faces.size).1 := by
      show (Roller.roll c'.source.source faces.size).1 = (Roller.roll c.source.source faces.size).1
      rw [wider.state]
    have state : (Roller.roll c'.source faces.size).2.source =
        (Roller.roll c.source faces.size).2.source := by
      show (Roller.roll c'.source.source faces.size).2 = (Roller.roll c.source.source faces.size).2
      rw [wider.state]
    rw [run_draw_of_remaining_eq_succ _ _ left, run_draw_of_remaining_eq_succ _ _ left', answer]
    exact .ok ⟨state, rfl, wider.rolls, wider.depth⟩

private theorem widens_drawValue (faces : FaceSet) :
    Widens more deeper (drawValue faces : Rolling (Counted σ) Value) (drawValue faces) :=
  (widens_draw faces).bind fun _ ↦ .pure _

/-- No number is drawn without budget. -/
private theorem run_drawValue_of_remaining_eq_zero (faces : FaceSet) {c : Context (Counted σ)}
    (h : c.remaining = 0) :
    (drawValue faces).run c = (.error (.tooManyRolls c.limits.rolls), c) := by
  rw [drawValue, run_bind_of_error (run_draw_of_remaining_eq_zero _ _ h)]

/-- Drawing again and again agrees with doing so with more budget, as long as the number of draws is
that of the budget. -/
private theorem agrees_drawUntilUnmet (faces : FaceSet) (condition : Condition)
    {c c' : Context (Counted σ)} (wider : c.Wider more deeper c') :
    Agrees more deeper ((drawUntilUnmet faces condition c.remaining).run c)
      ((drawUntilUnmet faces condition c'.remaining).run c') := by
  rw [wider.remaining]
  -- by induction on the budget that is left
  generalize left : c.remaining = budget
  induction budget generalizing c c' with
  | zero =>
    rw [drawUntilUnmet, run_drawValue_of_remaining_eq_zero faces left]
    apply Agrees.tooManyRolls rfl left
    intro zero
    refine ⟨c', ?_, wider⟩
    have left' : c'.remaining = 0 := by rw [wider.remaining, left, zero]
    rw [zero, drawUntilUnmet, run_drawValue_of_remaining_eq_zero faces left', wider.rolls, zero,
      Nat.add_zero]
  | succ budget ih =>
    rw [Nat.succ_add, drawUntilUnmet, drawUntilUnmet]
    apply (widens_drawValue faces c c' wider).bind
    intro v c₁ c₁' drawn wider
    have next := (drawValue_eq_ok drawn).1
    split
    · exact ih wider (by omega)
    · exact .ok wider

/-- A die settles in the same way with more budget. -/
private theorem widens_settle (spec : Spec) :
    Widens more deeper (settle spec : Rolling (Counted σ) Value) (settle spec) := by
  unfold settle
  split
  · exact widens_drawValue spec.faces
  · split
    · apply (widens_drawValue spec.faces).bind
      intro v
      split
      · exact widens_drawValue spec.faces
      · exact .pure v
    · exact .get_bind fun c c' wider ↦ agrees_drawUntilUnmet spec.faces _ wider

/-- The explosions of a die are the same with more budget and depth. -/
private theorem widens_chain (spec : Spec) (allowance : Nat) :
    Widens more deeper (chain spec allowance : Rolling (Counted σ) Chain)
      (chain spec (allowance + deeper)) := by
  induction allowance with
  | zero =>
    rw [chain.eq_def, chain.eq_def spec (0 + deeper)]
    apply (widens_settle spec).bind
    intro v
    simp only
    split
    · exact .pure _
    · split
      · apply Widens.exceeded
        rintro rfl
        rfl
      · exact .pure _
  | succ allowance ih =>
    rw [Nat.succ_add, chain.eq_def, chain.eq_def spec (allowance + deeper).succ]
    apply (widens_settle spec).bind
    intro v
    simp only
    split
    · exact .pure _
    · split
      · exact ih.bind fun _ ↦ .pure _
      · exact .pure _

/-- Dice come out the same with more budget and depth. -/
private theorem widens_chains (spec : Spec) (dice : Nat) :
    Widens more deeper (chains spec dice : Rolling (Counted σ) Chain) (chains spec dice) := by
  induction dice with
  | zero => exact .pure _
  | succ dice ih =>
    apply Widens.get_bind
    intro c c' wider
    rw [wider.depth]
    exact (widens_chain spec c.limits.explosionDepth).bind
      (fun first ↦ ih.bind fun rest ↦ .pure _) c c' wider

private theorem widens_drawMany (faces : FaceSet) (dice : Nat) :
    Widens more deeper (drawMany faces dice : Rolling (Counted σ) (List Face))
      (drawMany faces dice) := by
  induction dice with
  | zero => exact .pure _
  | succ dice ih => exact (widens_draw faces).bind fun _ ↦ ih.bind fun _ ↦ .pure _

/-- A roll comes out the same under looser limits, unless it is cut short. -/
private theorem agrees_evaluate (spec : Spec) {c c' : Context (Counted σ)} (h : c.Looser c') :
    Agrees (c'.limits.rolls - c.limits.rolls)
      (c'.limits.explosionDepth - c.limits.explosionDepth)
      ((evaluate spec).run c) ((evaluate spec).run c') := by
  have rolls := (Nat.add_sub_of_le h.rolls).symm
  have depth := (Nat.add_sub_of_le h.depth).symm
  unfold evaluate
  rw [run_bind_of_ok (run_refill c), run_bind_of_ok (run_refill c')]
  split
  · exact (widens_chains spec spec.count).bind (fun all ↦ .pure _) _ _
      ⟨h.state, rolls, rolls, depth⟩
  · exact (widens_drawMany spec.faces spec.count).bind (fun all ↦ .pure _) _ _
      ⟨h.state, rolls, rolls, depth⟩

/-- Whether the budget has paid for a number of rolls that were counted, under unchanged limits. -/
structure Paid (calls : Nat) (c c' : Context (Counted σ)) : Prop where
  limits : c'.limits = c.limits
  remaining : c.remaining = c'.remaining + calls
  draws : c'.source.draws = c.source.draws + calls

omit [Roller σ] in
private theorem Paid.trans {m n : Nat} {c c₁ c₂ : Context (Counted σ)} (h : Paid m c c₁)
    (h' : Paid n c₁ c₂) : Paid (m + n) c c₂ where
  limits := h'.limits.trans h.limits
  remaining := by rw [h.remaining, h'.remaining]; omega
  draws := by rw [h'.draws, h.draws, Nat.add_assoc]

/-- Every block of a roll pays for its draws. -/
private theorem closed_paid :
    Closed fun x : Rolling (Counted σ) _ ↦ ∀ c, ∃ calls, Paid calls c (x.run c).2 where
  pure a c := ⟨0, rfl, rfl, rfl⟩
  get c := ⟨0, rfl, rfl, rfl⟩
  exceeded limit c := ⟨0, rfl, rfl, rfl⟩
  bind {α β x f} hx hf := by
    intro c
    obtain ⟨m, first⟩ := hx c
    rw [run_bind]
    generalize x.run c = r at first
    obtain ⟨result, c₁⟩ := r
    cases result with
    | error e => exact ⟨m, first⟩
    | ok a =>
      obtain ⟨n, second⟩ := hf a c₁
      exact ⟨m + n, first.trans second⟩
  draw faces := by
    intro c
    cases left : c.remaining with
    | zero =>
      rw [run_draw_of_remaining_eq_zero _ _ left]
      exact ⟨0, rfl, rfl, rfl⟩
    | succ n =>
      rw [run_draw_of_remaining_eq_succ _ _ left]
      exact ⟨1, rfl, left, rfl⟩

/-- A roll pays for its draws from the whole budget. -/
private theorem paid_evaluate (spec : Spec) (c : Context (Counted σ)) :
    ∃ calls, Paid calls { c with remaining := c.limits.rolls } ((evaluate spec).run c).2 := by
  unfold evaluate
  rw [run_bind_of_ok (run_refill c)]
  split
  · exact closed_paid.bind (closed_paid.chains spec _) (fun _ ↦ closed_paid.pure _) _
  · exact closed_paid.bind (closed_paid.drawMany spec.faces _) (fun _ ↦ closed_paid.pure _) _

/-- Whether an action takes a number of units of the budget, and fails if there are fewer. -/
def Costs (n : Nat) (x : Rolling σ α) : Prop :=
  ∀ c, (∃ a c', x.run c = (.ok a, c') ∧ c.remaining = c'.remaining + n) ∨
    c.remaining < n ∧ ∃ e c', x.run c = (.error e, c')

namespace Costs

omit [Roller σ]

/-- A finished action costs nothing. -/
theorem pure (a : α) : Costs 0 (Pure.pure a : Rolling σ α) :=
  fun c ↦ .inl ⟨a, c, rfl, rfl⟩

/-- Costs add up. -/
theorem bind {m n : Nat} {x : Rolling σ α} {f : α → Rolling σ β} (h : Costs m x)
    (hf : ∀ a, Costs n (f a)) : Costs (n + m) (x >>= f) := by
  intro c
  obtain ⟨a, c₁, first, spent⟩ | ⟨short, e, c₁, first⟩ := h c
  · rw [run_bind_of_ok first]
    obtain ⟨b, c₂, second, spent'⟩ | ⟨short, e, c₂, second⟩ := hf a c₁
    · exact .inl ⟨b, c₂, second, by omega⟩
    · exact .inr ⟨by omega, e, c₂, second⟩
  · exact .inr ⟨by omega, e, c₁, run_bind_of_error first⟩

/-- What follows without drawing costs nothing. -/
theorem bind_pure {n : Nat} {x : Rolling σ α} {f : α → β} (h : Costs n x) :
    Costs n (x >>= fun a ↦ Pure.pure (f a)) := by
  have cost := h.bind fun a ↦ pure (f a)
  rwa [Nat.zero_add] at cost

end Costs

/-- A draw costs one. -/
private theorem costs_draw (faces : FaceSet) : Costs 1 (draw faces : Rolling σ Face) := by
  intro c
  cases left : c.remaining with
  | zero => exact .inr ⟨Nat.one_pos, _, _, run_draw_of_remaining_eq_zero _ _ left⟩
  | succ n => exact .inl ⟨_, _, run_draw_of_remaining_eq_succ _ _ left, rfl⟩

/-- A die that neither explodes nor is drawn again costs one. -/
private theorem costs_chain {spec : Spec} (h : spec.Plain) (allowance : Nat) :
    Costs 1 (chain spec allowance : Rolling σ Chain) := by
  have settled : Costs 1 (settle spec : Rolling σ Value) := by
    rw [settle, h.2]
    exact (costs_draw spec.faces).bind_pure
  unfold chain
  rw [h.1]
  exact settled.bind_pure

private theorem costs_chains {spec : Spec} (h : spec.Plain) (dice : Nat) :
    Costs dice (chains spec dice : Rolling σ Chain) := by
  induction dice with
  | zero => exact .pure _
  | succ dice ih =>
    intro c
    exact (costs_chain h c.limits.explosionDepth).bind (fun _ ↦ ih.bind_pure) c

private theorem costs_drawMany (faces : FaceSet) (dice : Nat) :
    Costs dice (drawMany faces dice : Rolling σ (List Face)) := by
  induction dice with
  | zero => exact .pure _
  | succ dice ih => exact (costs_draw faces).bind fun _ ↦ ih.bind_pure

/-- Dice that neither explode nor are drawn again cost one each, from the whole budget. -/
private theorem costs_evaluate {spec : Spec} (h : spec.Plain) (c : Context σ) :
    (∃ o c', (evaluate spec).run c = (.ok o, c') ∧
      c.limits.rolls = c'.remaining + spec.count) ∨
    c.limits.rolls < spec.count ∧ ∃ e c', (evaluate spec).run c = (.error e, c') := by
  unfold evaluate
  rw [run_bind_of_ok (run_refill c)]
  split
  · exact (costs_chains h spec.count).bind_pure { c with remaining := c.limits.rolls }
  · exact (costs_drawMany spec.faces spec.count).bind_pure { c with remaining := c.limits.rolls }

/-- Whether a roll ends with a result, in a state of the roller, after a number of calls of it. -/
def Evaluates (spec : Spec) (c : Context (Counted σ)) (result : Except Error Outcome) (state : σ)
    (calls : Nat) : Prop :=
  ∃ left, (evaluate spec).run c =
    (result, ⟨c.limits, left, ⟨state, c.source.draws + calls⟩⟩)

/-- Every roll ends, and has paid for its draws from the whole budget. -/
theorem exists_run (spec : Spec) (c : Context (Counted σ)) :
    ∃ result left state calls,
      (evaluate spec).run c = (result, ⟨c.limits, left, ⟨state, c.source.draws + calls⟩⟩) ∧
      c.limits.rolls = left + calls := by
  obtain ⟨calls, paid⟩ := paid_evaluate spec c
  generalize (evaluate spec).run c = r at paid ⊢
  obtain ⟨result, ⟨limits, left, ⟨state, draws⟩⟩⟩ := r
  obtain rfl : limits = c.limits := paid.limits
  obtain rfl : draws = c.source.draws + calls := paid.draws
  exact ⟨result, left, state, calls, rfl, paid.remaining⟩

/-- A roll comes out the same, after as many calls, under looser limits, unless these give more of
what it lacks. -/
theorem Evaluates.again {spec : Spec} {c c' : Context (Counted σ)} {result : Except Error Outcome}
    {state : σ} {calls : Nat} (h : Evaluates spec c result state calls) (looser : c.Looser c')
    (budget : ∀ limit, result = .error (.tooManyRolls limit) → c'.limits.rolls = c.limits.rolls)
    (depth : ∀ limit, result = .error (.explosionDepthExceeded limit) →
      c'.limits.explosionDepth = c.limits.explosionDepth) :
    Evaluates spec c' result state calls := by
  obtain ⟨left, run⟩ := h
  have agrees := agrees_evaluate spec looser
  rw [run] at agrees
  obtain ⟨c₁', run', wider⟩ := agrees.same
    (fun limit lacks ↦ by rw [budget limit lacks, Nat.sub_self])
    (fun limit lacks ↦ by rw [depth limit lacks, Nat.sub_self])
  obtain ⟨_, _, _, _, run₁, paid⟩ := exists_run spec c
  obtain ⟨_, left', _, calls', run₁', paid'⟩ := exists_run spec c'
  simp only [run, Prod.mk.injEq, Context.mk.injEq, Counted.mk.injEq, true_and] at run₁
  rw [run₁'] at run'
  obtain ⟨rfl, rfl⟩ := Prod.mk.inj run'
  have state := wider.state
  have remaining := wider.remaining
  have rolls := looser.rolls
  simp only at state remaining
  -- the calls are what is missing from either budget
  obtain rfl : calls' = calls := by omega
  exact ⟨left', state ▸ run₁'⟩

/-- A roll under limits ends after no more calls of the roller than they allow. If it succeeds, it
comes out the same, after as many calls, under all looser limits. If it lacks budget, the calls are
exactly those that are allowed, also when it may explode deeper; if it lacks depth, it does so after
as many calls when it may draw more. Dice that neither explode nor are drawn again need as many
draws as there are dice. -/
theorem evaluate_limits (spec : Spec) (c : Context (Counted σ)) :
    ∃ result state calls, Evaluates spec c result state calls ∧ calls ≤ c.limits.rolls ∧
      (∀ o, result = .ok o → ∀ c', c.Looser c' → Evaluates spec c' (.ok o) state calls) ∧
      (∀ e, result = .error e →
        e = .tooManyRolls c.limits.rolls ∧ calls = c.limits.rolls ∧
          (∀ c', c.Looser c' → c'.limits.rolls = c.limits.rolls →
            Evaluates spec c' (.error e) state calls) ∨
        e = .explosionDepthExceeded c.limits.explosionDepth ∧
          ∀ c', c.Looser c' → c'.limits.explosionDepth = c.limits.explosionDepth →
            Evaluates spec c' (.error e) state calls) ∧
      (spec.Plain → ((∃ o, result = .ok o) ↔ spec.count ≤ c.limits.rolls) ∧
        ∀ o, result = .ok o → calls = spec.count) := by
  obtain ⟨result, left, state, calls, run, paid⟩ := exists_run spec c
  have ends : Evaluates spec c result state calls := ⟨left, run⟩
  refine ⟨result, state, calls, ends, by omega, ?_, ?_, ?_⟩
  · rintro o rfl c' looser
    exact ends.again looser nofun nofun
  · rintro e rfl
    have agrees := agrees_evaluate spec (.refl c)
    rw [run] at agrees
    cases agrees with
    | tooManyRolls reached spent _ =>
      simp only at spent
      refine .inl ⟨by rw [reached], by omega, fun c' looser same ↦ ?_⟩
      exact ends.again looser (fun _ _ ↦ same) nofun
    | tooDeep reached _ =>
      refine .inr ⟨by rw [reached], fun c' looser same ↦ ?_⟩
      exact ends.again looser nofun fun _ _ ↦ same
  · intro plain
    obtain ⟨o, c₂, run', spent⟩ | ⟨short, e, c₂, run'⟩ := costs_evaluate plain c
    · cases run.symm.trans run'
      simp only at spent
      exact ⟨⟨fun _ ↦ by omega, fun _ ↦ ⟨o, rfl⟩⟩, fun _ _ ↦ by omega⟩
    · cases run.symm.trans run'
      exact ⟨⟨nofun, fun enough ↦ by omega⟩, nofun⟩

private def restless : Spec :=
  ⟨1, .cube, { explode? := some ⟨⟨.greaterEqual, 1⟩, false, false⟩ }, []⟩

private def fresh (depth rolls : Nat) : Context (Counted Source) :=
  Context.new { explosionDepth := depth, rolls } ⟨Source.step 1 1, 0⟩

/-- A die that always explodes lacks depth after two draws if one explosion may follow, however many
draws are allowed; it lacks budget after three draws if there are three, however deep it goes. -/
theorem evaluate_limits_restless :
    (∃ state, ∀ rolls, 2 ≤ rolls →
      Evaluates restless (fresh 1 rolls) (.error (.explosionDepthExceeded 1)) state 2) ∧
    ∃ state, ∀ depth, 3 ≤ depth →
      Evaluates restless (fresh depth 3) (.error (.tooManyRolls 3)) state 3 := by
  constructor
  · obtain ⟨_, lacks, two⟩ := exists_failure (r := (evaluate restless).run (fresh 1 2))
      (e := .explosionDepthExceeded 1) (f := fun c ↦ c.source.draws) (b := 2)
      (by decide +kernel) (by decide +kernel)
    obtain ⟨_, state, calls, ⟨_, run⟩, _, _, short, _⟩ := evaluate_limits restless (fresh 1 2)
    cases run.symm.trans lacks
    obtain rfl : calls = 2 := (Nat.zero_add calls).symm.trans two
    refine ⟨state, fun rolls enough ↦ ?_⟩
    obtain ⟨other, _⟩ | ⟨_, same⟩ := short _ rfl
    · exact nomatch other
    · exact same _ ⟨rfl, enough, Nat.le_refl 1⟩ rfl
  · obtain ⟨_, lacks, three⟩ := exists_failure (r := (evaluate restless).run (fresh 3 3))
      (e := .tooManyRolls 3) (f := fun c ↦ c.source.draws) (b := 3)
      (by decide +kernel) (by decide +kernel)
    obtain ⟨_, state, calls, ⟨_, run⟩, _, _, short, _⟩ := evaluate_limits restless (fresh 3 3)
    cases run.symm.trans lacks
    obtain rfl : calls = 3 := (Nat.zero_add calls).symm.trans three
    refine ⟨state, fun depth enough ↦ ?_⟩
    obtain ⟨_, _, same⟩ | ⟨other, _⟩ := short _ rfl
    · exact same _ ⟨rfl, Nat.le_refl 3, enough⟩ rfl
    · exact nomatch other

end Rolling

end DicePool
