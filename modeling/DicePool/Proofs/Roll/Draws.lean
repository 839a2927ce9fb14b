import DicePool.Proofs.Roll.Script
import DicePool.Proofs.Value
import Mathlib.Data.List.Forall2

/-!
# Counting draws

A predicate on the states of a roller that follows it from draw to draw is an account of the draws:
it may count them, or say that the answers stay within the sides. An action spends a number of draws
if it takes the account that much further whenever it ends with a result.
-/

namespace DicePool

namespace Rolling

variable {σ α β : Type}

/-- Whether every result of an action satisfies a predicate and comes after a number of draws of
the account `I`. -/
def Spends (I : Nat → σ → Prop) (action : Rolling σ α) (draws : Nat) (p : α → Prop) : Prop :=
  ∀ k c a c', I k c.source → action.run c = (.ok a, c') → p a ∧ I (k + draws) c'.source

namespace Spends

variable {I : Nat → σ → Prop} {x : Rolling σ α} {p : α → Prop} {n m : Nat}

/-- A finished action spends nothing. -/
theorem pure {a : α} (h : p a) : Spends I (Pure.pure a : Rolling σ α) 0 p := by
  intro k c a' c' account run
  cases run
  exact ⟨h, account⟩

/-- What both actions spend adds up. -/
theorem bind {f : α → Rolling σ β} {q : β → Prop} (h : Spends I x n p)
    (hf : ∀ a, p a → Spends I (f a) m q) : Spends I (x >>= f) (n + m) q := by
  intro k c b c' account run
  rw [run_bind] at run
  split at run
  · next a c₁ first =>
    obtain ⟨ha, account₁⟩ := h k c a c₁ account first
    rw [← Nat.add_assoc]
    exact hf a ha (k + n) c₁ b c' account₁ run
  · exact nomatch congrArg Prod.fst run

/-- The second action may spend nothing. -/
theorem bind_free {f : α → Rolling σ β} {q : β → Prop} (h : Spends I x n p)
    (hf : ∀ a, p a → Spends I (f a) 0 q) : Spends I (x >>= f) n q := h.bind hf

/-- The first action may spend nothing. -/
theorem free_bind {f : α → Rolling σ β} {q : β → Prop} (h : Spends I x 0 p)
    (hf : ∀ a, p a → Spends I (f a) n q) : Spends I (x >>= f) n q := by
  have both := h.bind hf
  rwa [Nat.zero_add] at both

/-- Reading the context spends nothing. -/
theorem get : Spends I (MonadState.get : Rolling σ (Context σ)) 0 fun _ ↦ True := by
  intro k c a c' account run
  cases run
  exact ⟨trivial, account⟩

/-- Refilling the budget spends nothing. -/
theorem refill : Spends I (Rolling.refill : Rolling σ Unit) 0 fun _ ↦ True := by
  intro k c a c' account run
  cases run
  exact ⟨trivial, account⟩

/-- Reading a text spends nothing. -/
theorem ofParse {r : Except ParseError α} :
    Spends I (Rolling.ofParse r : Rolling σ α) 0 (r = .ok ·) := by
  cases r with
  | ok a => exact pure rfl
  | error e =>
    intro k c a c' account run
    exact nomatch congrArg Prod.fst run

/-- A row of actions spends what all of them spend. -/
theorem mapM {f : α → Rolling σ β} {cost : α → Nat} {q : α → β → Prop} {as : List α}
    (h : ∀ a ∈ as, Spends I (f a) (cost a) (q a)) :
    Spends I (as.mapM f) (as.map cost).sum (List.Forall₂ q as) := by
  induction as with
  | nil =>
    rw [List.mapM_nil]
    exact pure .nil
  | cons a as ih =>
    rw [List.forall_mem_cons] at h
    rw [List.mapM_cons, List.map_cons, List.sum_cons]
    exact h.1.bind fun b hb ↦ (ih h.2).bind fun bs hbs ↦ pure (.cons hb hbs)

end Spends

namespace Ensures

variable {x : Rolling σ α} {p : α → Prop}

/-- Without an account only the results matter. -/
theorem of_spends {n : Nat} (h : Spends (fun _ _ ↦ True) x n p) : Ensures x p :=
  fun c a c' run ↦ (h 0 c a c' True.intro run).1

/-- Without an account no draws are counted. -/
theorem spends (h : Ensures x p) : Spends (fun _ _ ↦ True) x 0 p :=
  fun _ c a c' _ run ↦ ⟨h c a c' run, True.intro⟩

/-- Each result of a row of actions is one of its own action. -/
theorem mapM {f : α → Rolling σ β} {q : α → β → Prop} {as : List α}
    (h : ∀ a ∈ as, Ensures (f a) (q a)) : Ensures (as.mapM f) (List.Forall₂ q as) :=
  of_spends (Spends.mapM fun a ha ↦ (h a ha).spends)

end Ensures

variable [Roller σ]

/-- Whether an account follows the roller from draw to draw, with answers that show numbers which
satisfy `D` for the number of sides. -/
def Accounts (I : Nat → σ → Prop) (D : Nat → Nat → Prop) : Prop :=
  ∀ k s, I k s → ∀ sides, 0 < sides →
    D sides (FaceSet.shown (Roller.roll s sides).1) ∧ I (k + 1) (Roller.roll s sides).2

variable {I : Nat → σ → Prop} {D : Nat → Nat → Prop}

/-- A number from a range is the answer of one draw. -/
private theorem spends_drawValue (h : Accounts I D) {sides : Nat}
    (valid : 0 < sides ∧ sides < 4294967296) :
    Spends I (drawValue (.range sides valid) : Rolling σ Value) 1 fun v ↦
      ∃ n : Nat, v = n ∧ n < 4294967296 ∧ D sides n := by
  have small (answer : Nat) : FaceSet.shown answer < 4294967296 := by
    unfold FaceSet.shown
    omega
  have drawn : Spends I (draw (.range sides valid) : Rolling σ Face) 1
      fun f ↦ ∃ n : Nat, f = .number n ∧ n < 4294967296 ∧ D sides n := by
    intro k c f c' account run
    cases hr : c.remaining with
    | zero =>
      rw [run_draw_of_remaining_eq_zero _ _ hr] at run
      exact nomatch congrArg Prod.fst run
    | succ left =>
      rw [run_draw_of_remaining_eq_succ _ _ hr] at run
      cases run
      obtain ⟨answer, account⟩ := h k c.source account sides valid.1
      exact ⟨⟨_, rfl, small _, answer⟩, account⟩
  refine drawn.bind_free fun f hf ↦ ?_
  obtain ⟨n, rfl, answer⟩ := hf
  exact .pure ⟨n, rfl, answer⟩

end Rolling

/-- Whether a specification is a number of dice from one to the number of sides, not more than can
be written, and nothing else. -/
structure Spec.Bare (spec : Spec) (count sides : Nat) : Prop where
  count : spec.count = count
  faces : ∃ valid, spec.faces = .range sides valid
  few : spec.count ≤ maxDice
  plain : spec.Plain
  boost : spec.modifiers.boost = .identity
  selects : spec.modifiers.selects = false
  adjustment : spec.modifiers.adjustment = 0

namespace Rolling

variable {σ : Type} [Roller σ] {I : Nat → σ → Prop} {D : Nat → Nat → Prop} {spec : Spec}
  {count sides : Nat}

/-- A bare die is drawn once. -/
private theorem spends_chain (h : Accounts I D) (bare : spec.Bare count sides) (allowance : Nat) :
    Spends I (chain spec allowance : Rolling σ Chain) 1 fun ch ↦
      ∃ n : Nat, ch.modified = [(n : Value)] ∧ n < 4294967296 ∧ D sides n := by
  have settled : Spends I (settle spec : Rolling σ Value) 1 fun v ↦
      ∃ n : Nat, v = n ∧ n < 4294967296 ∧ D sides n := by
    obtain ⟨valid, hf⟩ := bare.faces
    rw [settle, bare.plain.2, hf]
    exact spends_drawValue h valid
  unfold chain
  refine settled.bind_free fun v hv ↦ ?_
  obtain ⟨n, rfl, small, answer⟩ := hv
  have boosted : Boost.identity.apply (n : Value) = n :=
    Value.plus_zero (Value.wrap_of_bounds (by simp) (by simp; omega))
  rw [bare.plain.1, bare.boost, boosted]
  exact .pure ⟨n, rfl, small, answer⟩

/-- Bare dice are drawn once each. -/
private theorem spends_chains (h : Accounts I D) (bare : spec.Bare count sides) (dice : Nat) :
    Spends I (chains spec dice : Rolling σ Chain) dice fun ch ↦
      ∃ ns : List Nat, ns.length = dice ∧ (∀ n ∈ ns, n < 4294967296 ∧ D sides n) ∧
        ch.modified = ns.map (Nat.cast : Nat → Value) := by
  induction dice with
  | zero => exact .pure ⟨[], rfl, by simp, rfl⟩
  | succ dice ih =>
    rw [chains, Nat.add_comm dice 1]
    refine Spends.get.free_bind fun c _ ↦ (spends_chain h bare c.limits.explosionDepth).bind
      fun first hf ↦ ih.bind_free fun rest hr ↦ .pure ?_
    obtain ⟨n, drawn, answer⟩ := hf
    obtain ⟨ns, length, answers, drawn'⟩ := hr
    refine ⟨n :: ns, by rw [List.length_cons, length, Nat.add_comm],
      List.forall_mem_cons.mpr ⟨answer, answers⟩, ?_⟩
    simp [drawn, drawn']

/-- As many answers of 32 bits as there can be dice are added up without wrapping around. -/
private theorem sum_natCast {ns : List Nat} (few : ns.length ≤ maxDice)
    (small : ∀ n ∈ ns, n < 4294967296) :
    Value.sum (ns.map (Nat.cast : Nat → Value)) = (ns.sum : Nat) := by
  have light : Light 1 (ns.length * 4294967296) (ns.map (Nat.cast : Nat → Value)) :=
    Light.map fun n hn ↦ (Light.intCast 1 n).mono (by have := small n hn; omega)
  unfold maxDice at few
  have addable : Addable (ns.map (Nat.cast : Nat → Value)) :=
    light.addable ⟨Nat.one_pos, by decide, by omega⟩
  rw [addable.sum_eq]
  exact (map_list_sum (Nat.castAddMonoidHom Value) ns).symm

/-- Bare dice total the sum of their answers, one draw for each die. -/
theorem spends_total (h : Accounts I D) (bare : spec.Bare count sides) :
    Spends I (total spec : Rolling σ Value) count fun v ↦
      ∃ ns : List Nat, ns.length = count ∧ (∀ n ∈ ns, D sides n) ∧ v = (ns.sum : Nat) := by
  obtain ⟨_, hf⟩ := bare.faces
  have hn : spec.isNumeric = true := by rw [Spec.isNumeric, hf, FaceSet.isNumeric_range]
  have rolled : Spends I (evaluate spec : Rolling σ Outcome) count fun o ↦
      ∃ ns : List Nat, ns.length = count ∧ (∀ n ∈ ns, D sides n) ∧
        o.total spec = (ns.sum : Nat) := by
    unfold evaluate
    rw [if_pos hn, bare.count]
    refine Spends.refill.free_bind fun _ _ ↦ (spends_chains h bare count).bind_free
      fun all drawn ↦ .pure ?_
    obtain ⟨ns, length, answers, modified⟩ := drawn
    refine ⟨ns, length, fun n hn ↦ (answers n hn).2, ?_⟩
    have few : ns.length ≤ maxDice := length.le.trans (bare.count.ge.trans bare.few)
    have sum := sum_natCast few fun n hn ↦ (answers n hn).1
    rw [Outcome.total_numbers hn, Modifiers.filterPool_of_not_selects bare.selects, modified,
      bare.adjustment, Int.cast_zero, Value.plus_zero (Value.narrow_sum _), sum]
  exact rolled.bind_free fun o total ↦ .pure total

end Rolling

end DicePool
