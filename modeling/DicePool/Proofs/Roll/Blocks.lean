import DicePool.Proofs.Roll.Run

/-!
# The blocks of a roll

A roll is put together from draws, looks at the context, and failures at the explosion depth. What
passes along when actions are put together therefore holds of a whole roll as soon as it holds of
these.
-/

namespace DicePool.Rolling

variable {σ : Type} [Roller σ]

/-- A property that passes along when actions are put together, and that the blocks of a roll
have. -/
structure Closed (P : ∀ {α : Type}, Rolling σ α → Prop) : Prop where
  pure : ∀ {α : Type} (a : α), P (Pure.pure a)
  bind : ∀ {α β : Type} {x : Rolling σ α} {f : α → Rolling σ β}, P x → (∀ a, P (f a)) → P (x >>= f)
  get : P (MonadState.get : Rolling σ (Context σ))
  draw : ∀ faces : FaceSet, P (Rolling.draw faces)
  exceeded : ∀ {α : Type} (limit : Nat), P (throw (.explosionDepthExceeded limit) : Rolling σ α)

namespace Closed

variable {P : ∀ {α : Type}, Rolling σ α → Prop} (h : Closed P)
include h

/-- A number is drawn by drawing a face. -/
theorem drawValue (faces : FaceSet) : P (Rolling.drawValue faces) :=
  h.bind (h.draw faces) fun _ ↦ h.pure _

/-- Drawing again and again is drawing. -/
theorem drawUntilUnmet (faces : FaceSet) (condition : Condition) (budget : Nat) :
    P (Rolling.drawUntilUnmet faces condition budget) := by
  induction budget with
  | zero => exact h.drawValue faces
  | succ budget ih =>
    unfold Rolling.drawUntilUnmet
    apply h.bind (h.drawValue faces)
    intro v
    split
    · exact ih
    · exact h.pure v

/-- A die settles by draws. -/
theorem settle (spec : Spec) : P (Rolling.settle spec) := by
  unfold Rolling.settle
  split
  · exact h.drawValue spec.faces
  · split
    · apply h.bind (h.drawValue spec.faces)
      intro v
      split
      · exact h.drawValue spec.faces
      · exact h.pure v
    · exact h.bind h.get fun c ↦ h.drawUntilUnmet spec.faces _ _

/-- A die and its explosions settle one after the other. -/
theorem chain (spec : Spec) (allowance : Nat) : P (Rolling.chain spec allowance) := by
  induction allowance with
  | zero =>
    unfold Rolling.chain
    apply h.bind (h.settle spec)
    intro v
    simp only
    split
    · exact h.pure _
    · split
      · exact h.bind h.get fun c ↦ h.exceeded _
      · exact h.pure _
  | succ allowance ih =>
    unfold Rolling.chain
    apply h.bind (h.settle spec)
    intro v
    simp only
    split
    · exact h.pure _
    · split
      · exact h.bind ih fun _ ↦ h.pure _
      · exact h.pure _

/-- Dice are rolled one after the other. -/
theorem chains (spec : Spec) (dice : Nat) : P (Rolling.chains spec dice) := by
  induction dice with
  | zero => exact h.pure _
  | succ dice ih =>
    exact h.bind h.get fun c ↦ h.bind (h.chain spec _) fun _ ↦ h.bind ih fun _ ↦ h.pure _

/-- Faces are drawn one after the other. -/
theorem drawMany (faces : FaceSet) (dice : Nat) : P (Rolling.drawMany faces dice) := by
  induction dice with
  | zero => exact h.pure _
  | succ dice ih => exact h.bind (h.draw faces) fun _ ↦ h.bind ih fun _ ↦ h.pure _

/-- A roll begins with the whole budget. -/
theorem evaluate (refill : P Rolling.refill) (spec : Spec) : P (Rolling.evaluate spec) := by
  unfold Rolling.evaluate
  apply h.bind refill
  intro _
  split
  · exact h.bind (h.chains spec _) fun _ ↦ h.pure _
  · exact h.bind (h.drawMany spec.faces _) fun _ ↦ h.pure _

/-- Actions on a list are put together from those on its members. -/
theorem mapM {α β : Type} {f : α → Rolling σ β} {as : List α} (hf : ∀ a ∈ as, P (f a)) :
    P (as.mapM f) := by
  induction as with
  | nil => exact h.pure _
  | cons a as ih =>
    rw [List.forall_mem_cons] at hf
    rw [List.mapM_cons]
    exact h.bind hf.1 fun _ ↦ h.bind (ih hf.2) fun _ ↦ h.pure _

end Closed

end DicePool.Rolling
