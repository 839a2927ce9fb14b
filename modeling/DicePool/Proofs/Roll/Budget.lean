import DicePool.Analysis.Sampling
import DicePool.Equation.Substitution
import DicePool.Proofs.Roll.Limits
import DicePool.Roll.Throw

/-!
# The budget of a session

A session runs any operations one after the other on one context, those that fail included. Each
roll begins with the whole budget, wherever in an operation it stands, and each draw takes one unit
of it. What happens is logged action by action: from the log it can be told how much of the budget
is left, and whether a draw outside of a roll will be refused.
-/

namespace DicePool

/-- What happens to a budget: a roll begins, a face is drawn, or a draw is refused. -/
inductive Event where
  | began
  | drew
  | refused
  deriving Repr, DecidableEq

/-- The draws since the latest roll began after one more event. -/
def Event.count (draws : Nat) : Event → Nat
  | began => 0
  | drew => draws + 1
  | refused => draws

namespace Rolling

variable {σ α β : Type} [Roller σ]

/-- What happens when an action is run on a context. A log ends where the action fails. -/
inductive Logs : ∀ {α : Type}, Rolling σ α → Context σ → List Event → Prop
  | pure {α : Type} (a : α) (c : Context σ) : Logs (pure a) c []
  | throw {α : Type} (e : Error) (c : Context σ) : Logs (throw e : Rolling σ α) c []
  | get (c : Context σ) : Logs get c []
  | refill (c : Context σ) : Logs refill c [.began]
  | drew {faces : FaceSet} {c c' : Context σ} {face : Face}
    (run : (draw faces).run c = (.ok face, c')) : Logs (draw faces) c [.drew]
  | refused {faces : FaceSet} {c c' : Context σ} {e : Error}
    (run : (draw faces).run c = (.error e, c')) : Logs (draw faces) c [.refused]
  | bind {α β : Type} {x : Rolling σ α} {f : α → Rolling σ β} {c c' : Context σ} {a : α}
    {first second : List Event} (run : x.run c = (.ok a, c')) (hx : Logs x c first)
    (hf : Logs (f a) c' second) : Logs (x >>= f) c (first ++ second)
  | fail {α β : Type} {x : Rolling σ α} {f : α → Rolling σ β} {c c' : Context σ} {e : Error}
    {first : List Event} (run : x.run c = (.error e, c')) (hx : Logs x c first) :
    Logs (x >>= f) c first

/-- Whether a log accounts for what is left of a context: the draws that were counted, and the
budget, of which a part may have been used before. -/
structure Kept (log : List Event) (c c' : Context (Counted σ)) : Prop where
  limits : c'.limits = c.limits
  draws : c'.source.draws = c.source.draws + log.count .drew
  budget : ∀ used, used + c.remaining = c.limits.rolls →
    log.foldl Event.count used + c'.remaining = c.limits.rolls
  within : ∀ used, used + c.remaining = c.limits.rolls → ∀ earlier, earlier <+: log →
    earlier.foldl Event.count used ≤ c.limits.rolls

omit [Roller σ] in
/-- Nothing happens. -/
private theorem Kept.nil (c : Context (Counted σ)) : Kept [] c c where
  limits := rfl
  draws := rfl
  budget used h := h
  within used h earlier prefixed := by
    rw [List.prefix_nil.mp prefixed, List.foldl_nil]
    omega

omit [Roller σ] in
/-- One event happens. -/
private theorem Kept.one {e : Event} {c c' : Context (Counted σ)} (limits : c'.limits = c.limits)
    (draws : c'.source.draws = c.source.draws + [e].count .drew)
    (budget : ∀ used, used + c.remaining = c.limits.rolls →
      e.count used + c'.remaining = c.limits.rolls) : Kept [e] c c' where
  limits := limits
  draws := draws
  budget := budget
  within used h earlier prefixed := by
    have after := budget used h
    obtain rfl | ⟨rest, rfl, tail⟩ := List.prefix_cons_iff.mp prefixed
    · rw [List.foldl_nil]
      omega
    · rw [List.prefix_nil.mp tail, List.foldl_cons, List.foldl_nil]
      omega

omit [Roller σ] in
/-- One log follows on another. -/
private theorem Kept.append {first second : List Event} {c c₁ c₂ : Context (Counted σ)}
    (h : Kept first c c₁) (h' : Kept second c₁ c₂) : Kept (first ++ second) c c₂ where
  limits := h'.limits.trans h.limits
  draws := by rw [h'.draws, h.draws, List.count_append, Nat.add_assoc]
  budget used left := by
    have middle := h.budget used left
    rw [List.foldl_append, ← h.limits]
    exact h'.budget _ (by rw [middle, h.limits])
  within used left earlier prefixed := by
    have middle := h.budget used left
    obtain shorter | ⟨rest, rfl, tail⟩ : earlier <+: first ∨
        ∃ rest, earlier = first ++ rest ∧ rest <+: second := by
      obtain ⟨later, split⟩ := prefixed
      obtain ⟨rest, rfl, _⟩ | ⟨rest, rfl, rfl⟩ := List.append_eq_append_iff.mp split
      · exact .inl ⟨rest, rfl⟩
      · exact .inr ⟨rest, rfl, later, rfl⟩
    · exact h.within used left earlier shorter
    · rw [List.foldl_append, ← h.limits]
      exact h'.within _ (by rw [middle, h.limits]) rest tail

/-- A log accounts for what its action leaves. -/
private theorem Logs.kept {x : Rolling (Counted σ) α} {c : Context (Counted σ)} {log : List Event}
    (h : Logs x c log) : Kept log c (x.run c).2 := by
  induction h with
  | pure a c => exact .nil c
  | throw e c => exact .nil c
  | get c => exact .nil c
  | refill c => exact .one rfl rfl fun used h ↦ Nat.zero_add _
  | @drew faces c c' face run =>
    cases left : c.remaining with
    | zero =>
      rw [run_draw_of_remaining_eq_zero _ _ left] at run
      exact nomatch congrArg Prod.fst run
    | succ n =>
      rw [run_draw_of_remaining_eq_succ _ _ left]
      refine .one rfl rfl fun used h ↦ ?_
      rw [← h, left]
      exact Nat.succ_add_eq_add_succ used n
  | @refused faces c c' e run =>
    cases left : c.remaining with
    | zero =>
      rw [run_draw_of_remaining_eq_zero _ _ left]
      exact .one rfl rfl fun used h ↦ h
    | succ n =>
      rw [run_draw_of_remaining_eq_succ _ _ left] at run
      exact nomatch congrArg Prod.fst run
  | bind run _ _ ihx ihf =>
    rw [run] at ihx
    rw [run_bind_of_ok run]
    exact ihx.append ihf
  | fail run _ ih =>
    rw [run] at ih
    rw [run_bind_of_error run]
    exact ih

end Rolling

/-- What can be asked of a context. -/
inductive Operation where
  | draw (faces : FaceSet)
  | evaluate (spec : Spec)
  | total (spec : Spec)
  | parse (text : String)
  | roll (text : String)
  | throw (text : String)
  | substitute (text : String)
  | sample (text : String) (samples : Nat)

namespace Operation

variable {σ : Type} [Roller σ]

/-- The context that an operation leaves, whether it fails or not. -/
def run : Operation → Context σ → Context σ
  | draw faces, c => ((Rolling.draw faces).run c).2
  | evaluate spec, c => ((Rolling.evaluate spec).run c).2
  | total spec, c => ((Rolling.total spec).run c).2
  | parse text, c => ((Rolling.parse text).run c).2
  | roll text, c => ((Rolling.roll text).run c).2
  | throw text, c => (Throw.run text c).2
  | substitute text, c => ((Equation.substitute text).run c).2
  | sample text samples, c => ((Analysis.monteCarlo text samples).run c).2

/-- What happens in an operation. A throw is a roll. -/
def Logs : Operation → Context σ → List Event → Prop
  | draw faces, c, log => Rolling.Logs (Rolling.draw faces) c log
  | evaluate spec, c, log => Rolling.Logs (Rolling.evaluate spec) c log
  | total spec, c, log => Rolling.Logs (Rolling.total spec) c log
  | parse text, c, log => Rolling.Logs (Rolling.parse text) c log
  | roll text, c, log | throw text, c, log => Rolling.Logs (Rolling.roll text) c log
  | substitute text, c, log => Rolling.Logs (Equation.substitute text) c log
  | sample text samples, c, log => Rolling.Logs (Analysis.monteCarlo text samples) c log

/-- The log of an operation accounts for what it leaves. -/
private theorem kept {o : Operation} {c : Context (Counted σ)} {log : List Event}
    (h : o.Logs c log) : Rolling.Kept log c (o.run c) := by
  cases o <;> exact Rolling.Logs.kept h

end Operation

namespace Rolling

variable {σ : Type} [Roller σ]

end Rolling
end DicePool
