import DicePool.Proofs.Face
import DicePool.Roll.Score

/-!
# Running actions

What each building block of an action does to a context. An action that is put together from them
is run step by step with these laws; a step that fails ends the run with the context it leaves.
What all results of an action satisfy is shown in the same steps.
-/

namespace DicePool.Rolling

variable {σ α β : Type}

/-- A finished action leaves the context alone. -/
@[simp] theorem run_pure (a : α) (c : Context σ) :
    (pure a : Rolling σ α).run c = (.ok a, c) := rfl

/-- A failure leaves the context alone. -/
@[simp] theorem run_throw (e : Error) (c : Context σ) :
    (throw e : Rolling σ α).run c = (.error e, c) := rfl

/-- Reading the context leaves it alone. -/
@[simp] theorem run_get (c : Context σ) : (get : Rolling σ (Context σ)).run c = (.ok c, c) := rfl

/-- Refilling gives back the whole budget. -/
@[simp] theorem run_refill (c : Context σ) :
    (refill : Rolling σ Unit).run c = (.ok (), { c with remaining := c.limits.rolls }) := rfl

/-- The second action runs on what the first one leaves, unless that failed. -/
theorem run_bind (x : Rolling σ α) (f : α → Rolling σ β) (c : Context σ) :
    (x >>= f).run c =
      match x.run c with
      | (.ok a, c) => (f a).run c
      | (.error e, c) => (.error e, c) := by
  change (ExceptT.bind x f) c = _
  unfold ExceptT.bind ExceptT.mk
  change (StateT.bind x (ExceptT.bindCont f)) c = _
  unfold StateT.bind run
  cases x c with
  | mk result c => cases result <;> rfl

/-- The second action runs on what a successful first one leaves. -/
theorem run_bind_of_ok {x : Rolling σ α} {f : α → Rolling σ β} {c c' : Context σ} {a : α}
    (h : x.run c = (.ok a, c')) : (x >>= f).run c = (f a).run c' := by
  rw [run_bind, h]

/-- A failure of the first action is a failure of both. -/
theorem run_bind_of_error {x : Rolling σ α} {f : α → Rolling σ β} {c c' : Context σ} {e : Error}
    (h : x.run c = (.error e, c')) : (x >>= f).run c = (.error e, c') := by
  rw [run_bind, h]

/-- Two actions run alike if their first ones do, and their second ones on what these leave. -/
theorem run_bind_congr {x y : Rolling σ α} {f g : α → Rolling σ β} {c : Context σ}
    (h : x.run c = y.run c) (hf : ∀ a c', y.run c = (.ok a, c') → (f a).run c' = (g a).run c') :
    (x >>= f).run c = (y >>= g).run c := by
  rw [run_bind, run_bind, h]
  split
  · next a c' first => exact hf a c' first
  · rfl

/-- Two actions end with a result if the first one does, and the second one on what it leaves. -/
theorem run_bind_eq_ok_iff {x : Rolling σ α} {f : α → Rolling σ β} {c c' : Context σ} {b : β} :
    (x >>= f).run c = (.ok b, c') ↔
      ∃ a c₁, x.run c = (.ok a, c₁) ∧ (f a).run c₁ = (.ok b, c') := by
  rw [run_bind]
  split
  · next a c₁ first => simp [first, and_assoc]
  · next e c₁ first => simp [first]

/-- Two actions fail if the first one does, or the second one on what it leaves. -/
theorem run_bind_eq_error_iff {x : Rolling σ α} {f : α → Rolling σ β} {c c' : Context σ}
    {e : Error} :
    (x >>= f).run c = (.error e, c') ↔ x.run c = (.error e, c') ∨
      ∃ a c₁, x.run c = (.ok a, c₁) ∧ (f a).run c₁ = (.error e, c') := by
  rw [run_bind]
  split
  · next a c₁ first => simp [first, and_assoc]
  · next e c₁ first => simp [first]

/-- What is made of a result ends with what is made of it. -/
theorem run_bind_pure_eq_ok_iff {x : Rolling σ α} {f : α → β} {c c' : Context σ} {b : β} :
    (x >>= fun a ↦ pure (f a)).run c = (.ok b, c') ↔ ∃ a, x.run c = (.ok a, c') ∧ f a = b := by
  rw [run_bind]
  split
  · next a c₁ first => simp [first, and_right_comm, and_assoc]
  · next e c₁ first => simp [first]

/-- What is made of a result fails where the result does. -/
theorem run_bind_pure_eq_error_iff {x : Rolling σ α} {f : α → β} {c c' : Context σ} {e : Error} :
    (x >>= fun a ↦ pure (f a)).run c = (.error e, c') ↔ x.run c = (.error e, c') := by
  rw [run_bind]
  split
  · next a c₁ first => simp [first]
  · next e c₁ first => simp [first]

/-- Actions one after the other fail where the first of them does that fails, after the results of
those before it. -/
theorem run_mapM_eq_error_iff {f : α → Rolling σ β} {xs : List α} {c c' : Context σ} {e : Error} :
    (xs.mapM f).run c = (.error e, c') ↔
      ∃ before x after bs c₁, xs = before ++ x :: after ∧
        (before.mapM f).run c = (.ok bs, c₁) ∧ (f x).run c₁ = (.error e, c') := by
  constructor
  · intro h
    induction xs generalizing c with
    | nil => exact nomatch congrArg Prod.fst h
    | cons x xs ih =>
      rw [List.mapM_cons] at h
      rcases run_bind_eq_error_iff.mp h with first | ⟨b, c₁, first, rest⟩
      · exact ⟨[], x, xs, [], c, rfl, rfl, first⟩
      · obtain ⟨before, y, after, bs, c₂, rfl, done, fails⟩ :=
          ih (run_bind_pure_eq_error_iff.mp rest)
        refine ⟨x :: before, y, after, b :: bs, c₂, rfl, ?_, fails⟩
        rw [List.mapM_cons, run_bind_of_ok first, run_bind_of_ok done, run_pure]
  · rintro ⟨before, x, after, bs, c₁, rfl, done, fails⟩
    rw [List.mapM_append, run_bind_of_ok done, List.mapM_cons]
    exact run_bind_of_error (run_bind_of_error fails)

/-- A run that shows a result has this result. -/
theorem exists_result {r : Except Error α × Context σ} {f : α → β} {b : β}
    (h : r.1.toOption.map f = some b) : ∃ a c, r = (.ok a, c) ∧ f a = b := by
  obtain ⟨result, c⟩ := r
  cases result with
  | error e => contradiction
  | ok a => exact ⟨a, c, rfl, Option.some.inj h⟩

/-- A run that shows an error has this error, and leaves the context that it shows. -/
theorem exists_failure {r : Except Error α × Context σ} {e : Error} {f : Context σ → β} {b : β}
    (h : r.1 = .error e) (hf : f r.2 = b) : ∃ c, r = (.error e, c) ∧ f c = b :=
  ⟨r.2, Prod.ext h rfl, hf⟩

section Draws

variable [Roller σ] {faces : FaceSet} {c c' : Context σ} {v : Value} {e : Error}

/-- A face is drawn from the budget, by one answer of the roller. -/
theorem draw_eq_ok {f : Face} (h : (draw faces).run c = (.ok f, c')) :
    c.remaining = c'.remaining + 1 ∧ f = faces.face (Roller.roll c.source faces.size).1 ∧
      c'.source = (Roller.roll c.source faces.size).2 := by
  cases left : c.remaining with
  | zero => exact nomatch (run_draw_of_remaining_eq_zero _ _ left).symm.trans h
  | succ n =>
    cases (run_draw_of_remaining_eq_succ _ _ left).symm.trans h
    exact ⟨rfl, rfl, rfl⟩

/-- A number is drawn from the budget, by one answer of the roller. -/
theorem drawValue_eq_ok (h : (drawValue faces).run c = (.ok v, c')) :
    c.remaining = c'.remaining + 1 ∧ v = faces.value (Roller.roll c.source faces.size).1 ∧
      c'.source = (Roller.roll c.source faces.size).2 := by
  obtain ⟨f, drawn, rfl⟩ := run_bind_pure_eq_ok_iff.mp h
  obtain ⟨spent, rfl, next⟩ := draw_eq_ok drawn
  exact ⟨spent, rfl, next⟩

/-- A number that is not drawn lacks budget. -/
theorem drawValue_eq_error (h : (drawValue faces).run c = (.error e, c')) :
    e = .tooManyRolls c.limits.rolls ∧ c'.remaining = 0 := by
  have drawn := run_bind_pure_eq_error_iff.mp h
  cases left : c.remaining with
  | zero =>
    cases (run_draw_of_remaining_eq_zero _ _ left).symm.trans drawn
    exact ⟨rfl, left⟩
  | succ n => exact nomatch (run_draw_of_remaining_eq_succ _ _ left).symm.trans drawn

end Draws

/-- Whether every result of an action satisfies a predicate, whatever context it is run on. -/
def Ensures (action : Rolling σ α) (p : α → Prop) : Prop :=
  ∀ c a c', action.run c = (.ok a, c') → p a

namespace Ensures

variable {x : Rolling σ α} {p : α → Prop}

/-- A finished action ensures what its result satisfies. -/
theorem pure {a : α} (h : p a) : Ensures (Pure.pure a : Rolling σ α) p := by
  rintro c a' c' run
  obtain rfl := Except.ok.inj (congrArg Prod.fst run)
  exact h

/-- An action that fails has no result. -/
theorem throw (e : Error) : Ensures (MonadExcept.throw e : Rolling σ α) p := by
  rintro c a c' run
  exact nomatch congrArg Prod.fst run

/-- The second action is run with results of the first. -/
theorem bind {f : α → Rolling σ β} {q : β → Prop} (h : Ensures x p)
    (hf : ∀ a, p a → Ensures (f a) q) : Ensures (x >>= f) q := by
  intro c b c' run
  rw [run_bind] at run
  split at run
  · next a c₁ first => exact hf a (h c a c₁ first) c₁ b c' run
  · exact nomatch congrArg Prod.fst run

/-- Nothing is ensured of every action. -/
theorem trivial (x : Rolling σ α) : Ensures x fun _ ↦ True := fun _ _ _ _ ↦ True.intro

/-- A text that is read ensures what is read. -/
theorem ofParse {r : Except ParseError α} :
    Ensures (Rolling.ofParse r : Rolling σ α) (r = .ok ·) := by
  cases r with
  | error e => exact throw _
  | ok a => exact pure rfl

/-- What is ensured can be weakened. -/
theorem imp {q : α → Prop} (h : Ensures x p) (hq : ∀ a, p a → q a) : Ensures x q :=
  fun c a c' run ↦ hq a (h c a c' run)

end Ensures

end DicePool.Rolling
