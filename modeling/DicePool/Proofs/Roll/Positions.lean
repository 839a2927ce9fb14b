import DicePool.Proofs.Roll.Blocks
import Mathlib.Algebra.Field.Rat
import Mathlib.Data.Set.List
import Mathlib.Tactic.Ring

/-!
# The positions of a roll

Numbers are rolled position by position: a die settles, and as long as it explodes another one
follows it. What a position comes to depends on the values of its dice alone. Here the recursion of
the roll is replaced by the row of these values, which the dice settle on one after the other, and a
closed form of what each position adds to the roll.
-/

namespace DicePool

variable {σ α : Type}

/-- A context that has back the whole budget of its limits. -/
def Context.refilled (c : Context σ) : Context σ := { c with remaining := c.limits.rolls }

namespace Rolling

/-- Whether an action that is run again and again from a context on has the results of a list, one
after the other, and leaves another context in the end. -/
inductive Repeats (x : Rolling σ α) : Context σ → List α → Context σ → Prop
  | nil (c : Context σ) : Repeats x c [] c
  | cons {a : α} {as : List α} {c c₁ c' : Context σ} (run : x.run c = (.ok a, c₁))
    (rest : Repeats x c₁ as c') : Repeats x c (a :: as) c'

namespace Repeats

variable {x : Rolling σ α} {as bs : List α} {c c₁ c' : Context σ}

/-- Running an action once. -/
theorem one {a : α} (run : x.run c = (.ok a, c')) : Repeats x c [a] c' := .cons run (.nil c')

/-- Rows of results follow each other. -/
theorem append (h : Repeats x c as c₁) (h' : Repeats x c₁ bs c') : Repeats x c (as ++ bs) c' := by
  induction h with
  | nil c => exact h'
  | cons run _ ih => exact .cons run (ih h')

/-- A row of results is cut anywhere. -/
theorem exists_of_append (h : Repeats x c (as ++ bs) c') :
    ∃ c₁, Repeats x c as c₁ ∧ Repeats x c₁ bs c' := by
  induction as generalizing c with
  | nil => exact ⟨c, .nil c, h⟩
  | cons a as ih =>
    cases h with
    | cons run rest =>
      obtain ⟨c₁, first, second⟩ := ih rest
      exact ⟨c₁, .cons run first, second⟩

/-- What every run of an action keeps is kept along the row, and holds of every result that a run
gives when it is kept. -/
theorem invariant {I : Context σ → Prop} {p : α → Prop} (h : Repeats x c as c') (start : I c)
    (keeps : ∀ c a c', I c → x.run c = (.ok a, c') → I c' ∧ p a) :
    I c' ∧ ∀ a ∈ as, p a := by
  induction h with
  | nil c => exact ⟨start, fun _ none ↦ absurd none List.not_mem_nil⟩
  | cons run _ ih =>
    obtain ⟨next, result⟩ := keeps _ _ _ start run
    obtain ⟨last, results⟩ := ih next
    exact ⟨last, List.forall_mem_cons.mpr ⟨result, results⟩⟩

end Repeats

end Rolling

/-- What compounding dice come to: each adds what the dice after it come to, less one if they
penetrate. -/
def Explosion.compounded (e : Explosion) : List Value → Value
  | [] => 0
  | [b] => b
  | b :: b' :: bs =>
    let others := e.compounded (b' :: bs)
    Value.plus b (Value.sum [if e.penetrate then Value.minus others 1 else others])

/-- The chain of a position whose dice settle on the given values, if all of them explode but the
last. Penetrating dice lose one each after the first; compounding dice are summed into the first. -/
def Explosion.position (e : Explosion) (boost : Boost) (vs : List Value) : Chain :=
  let bs := vs.map boost.apply
  match e.compound, e.penetrate with
  | false, false => ⟨vs, bs⟩
  | false, true => ⟨vs, bs.take 1 ++ (bs.drop 1).map (Value.minus · 1)⟩
  | true, _ => ⟨vs.take 1, [e.compounded bs]⟩

/-- A die that is not followed by another one comes to its boosted value. -/
theorem Explosion.position_singleton (e : Explosion) (boost : Boost) (v : Value) :
    e.position boost [v] = ⟨[v], [boost.apply v]⟩ := by
  obtain ⟨_, compound, penetrate⟩ := e
  cases compound <;> cases penetrate <;> rfl

/-- A die before others extends what they come to. -/
theorem Explosion.extend_position (e : Explosion) (boost : Boost) (v w : Value)
    (ws : List Value) :
    e.extend v (boost.apply v) (e.position boost (w :: ws)) = e.position boost (v :: w :: ws) := by
  obtain ⟨_, compound, penetrate⟩ := e
  cases compound with
  | false => cases penetrate <;> rfl
  | true => cases penetrate <;> rfl

namespace Spec

/-- Whether a die that settles on a value is followed by another one. -/
def explodes (spec : Spec) (v : Value) : Bool :=
  spec.modifiers.explode?.any fun e ↦ e.condition.holds (spec.modifiers.boost.apply v)

/-- Whether the values are those of all dice of one position: each explodes but the last. -/
inductive Ended (spec : Spec) : List Value → Prop
  | last {v : Value} (settled : spec.explodes v = false) : Ended spec [v]
  | next {v : Value} {vs : List Value} (explodes : spec.explodes v = true) (rest : Ended spec vs) :
    Ended spec (v :: vs)

/-- A position has at least one die. -/
theorem Ended.ne_nil {spec : Spec} {vs : List Value} (h : spec.Ended vs) : vs ≠ [] := by
  cases h <;> exact List.cons_ne_nil _ _

/-- What a position comes to whose dice settle on the given values. -/
def position (spec : Spec) (vs : List Value) : Chain :=
  match spec.modifiers.explode? with
  | none => ⟨vs, vs.map spec.modifiers.boost.apply⟩
  | some e => e.position spec.modifiers.boost vs

/-- Only dice of a position are listed. -/
theorem subset_position (spec : Spec) (vs : List Value) : (spec.position vs).natural ⊆ vs := by
  unfold position
  cases spec.modifiers.explode? with
  | none => exact List.Subset.refl vs
  | some e =>
    obtain ⟨_, compound, penetrate⟩ := e
    cases compound with
    | false => cases penetrate <;> exact List.Subset.refl vs
    | true => cases penetrate <;> exact List.take_subset 1 vs

/-- Without an explosion a position is one die. -/
theorem Ended.exists_eq_singleton {spec : Spec} (h : spec.modifiers.explode? = none)
    {vs : List Value} (ended : spec.Ended vs) : ∃ v, vs = [v] := by
  cases ended with
  | last => exact ⟨_, rfl⟩
  | next explodes _ =>
    rw [Spec.explodes, h] at explodes
    contradiction

/-- Without an explosion, or with one that compounds, one value counts for each position. -/
theorem Ended.length_modified {spec : Spec}
    (single : ∀ x ∈ spec.modifiers.explode?, x.compound = true) {vs : List Value}
    (ended : spec.Ended vs) : (spec.position vs).modified.length = 1 := by
  unfold position
  cases he : spec.modifiers.explode? with
  | none =>
    obtain ⟨v, rfl⟩ := ended.exists_eq_singleton he
    rfl
  | some x =>
    obtain ⟨_, compound, penetrate⟩ := x
    obtain rfl : compound = true := single _ he
    cases penetrate <;> rfl

/-- What a row of positions comes to. -/
def positions (spec : Spec) (rows : List (List Value)) : Chain where
  natural := rows.flatMap fun vs ↦ (spec.position vs).natural
  modified := rows.flatMap fun vs ↦ (spec.position vs).modified

/-- Without an explosion, or with one that compounds, as many values count as there are
positions. -/
theorem length_positions {spec : Spec} (single : ∀ x ∈ spec.modifiers.explode?, x.compound = true)
    {rows : List (List Value)} (ended : ∀ vs ∈ rows, spec.Ended vs) :
    (spec.positions rows).modified.length = rows.length := by
  have ones : rows.map (fun vs ↦ (spec.position vs).modified.length) =
      List.replicate rows.length 1 := by
    rw [List.eq_replicate_iff, List.length_map]
    refine ⟨rfl, fun n hn ↦ ?_⟩
    obtain ⟨vs, hvs, rfl⟩ := List.mem_map.mp hn
    exact (ended vs hvs).length_modified single
  rw [positions, List.length_flatMap, ones, List.sum_replicate_nat, Nat.mul_one]

end Spec

namespace Rolling

variable [Roller σ] {spec : Spec} {v : Value} {c c₁ c' : Context σ} {e : Error}

/-- A die that does not settle has no chain. -/
private theorem run_chain_of_error (h : (settle spec).run c = (.error e, c')) (allowance : Nat) :
    (chain spec allowance).run c = (.error e, c') := by
  unfold chain
  exact run_bind_of_error h

/-- A die that does not explode ends its position. -/
private theorem run_chain_of_settled (h : (settle spec).run c = (.ok v, c'))
    (settled : spec.explodes v = false) (allowance : Nat) :
    (chain spec allowance).run c = (.ok (spec.position [v]), c') := by
  unfold chain
  rw [run_bind_of_ok h]
  unfold Spec.explodes at settled
  unfold Spec.position
  cases he : spec.modifiers.explode? with
  | none => rfl
  | some x =>
    rw [he, Option.any_some] at settled
    simp only [settled, Bool.false_eq_true, if_false, run_pure, Explosion.position_singleton]

/-- A die that explodes is followed by others, if there may be any. -/
private theorem run_chain_of_explodes (h : (settle spec).run c = (.ok v, c₁))
    (explodes : spec.explodes v = true) :
    ∃ x, spec.modifiers.explode? = some x ∧ ∀ allowance, (chain spec allowance).run c =
      (match allowance with
      | 0 => do throw (.explosionDepthExceeded (← get).limits.explosionDepth)
      | left + 1 => do return x.extend v (spec.modifiers.boost.apply v) (← chain spec left)
        : Rolling σ Chain).run c₁ := by
  unfold Spec.explodes at explodes
  cases he : spec.modifiers.explode? with
  | none =>
    rw [he] at explodes
    contradiction
  | some x =>
    rw [he, Option.any_some] at explodes
    refine ⟨x, rfl, fun allowance ↦ ?_⟩
    rw [chain.eq_def, run_bind_of_ok h]
    cases allowance <;> simp only [he, explodes, if_true]

/-- A die that explodes when no other one may follow fails. -/
private theorem run_chain_zero (h : (settle spec).run c = (.ok v, c₁))
    (explodes : spec.explodes v = true) :
    (chain spec 0).run c = (.error (.explosionDepthExceeded c₁.limits.explosionDepth), c₁) := by
  obtain ⟨_, _, next⟩ := run_chain_of_explodes h explodes
  rw [next, run_bind_of_ok (run_get c₁), run_throw]

/-- A die that explodes fails if the dice after it do. -/
private theorem run_chain_succ_of_error (h : (settle spec).run c = (.ok v, c₁))
    (explodes : spec.explodes v = true) {allowance : Nat}
    (rest : (chain spec allowance).run c₁ = (.error e, c')) :
    (chain spec (allowance + 1)).run c = (.error e, c') := by
  obtain ⟨_, _, next⟩ := run_chain_of_explodes h explodes
  rw [next, run_bind_of_error rest]

/-- A die that explodes extends the position of the dice after it. -/
private theorem run_chain_succ_of_ok (h : (settle spec).run c = (.ok v, c₁))
    (explodes : spec.explodes v = true) {allowance : Nat} {ws : List Value}
    (nonempty : ws ≠ []) (rest : (chain spec allowance).run c₁ = (.ok (spec.position ws), c')) :
    (chain spec (allowance + 1)).run c = (.ok (spec.position (v :: ws)), c') := by
  obtain ⟨x, he, next⟩ := run_chain_of_explodes h explodes
  obtain ⟨w, ws, rfl⟩ := List.exists_cons_of_ne_nil nonempty
  rw [next, run_bind_of_ok rest, run_pure]
  simp only [Spec.position, he, Explosion.extend_position]

/-- Whether the dice of a position break off before one of them does not explode: since no other one
may follow, or since the next one does not settle. -/
def BreaksOff (spec : Spec) (allowance : Nat) (c : Context σ) (vs : List Value) (e : Error)
    (c' : Context σ) : Prop :=
  (∀ v ∈ vs, spec.explodes v = true) ∧ ∃ c₁, Repeats (settle spec) c vs c₁ ∧
    (vs.length = allowance + 1 ∧ e = .explosionDepthExceeded c₁.limits.explosionDepth ∧ c' = c₁ ∨
      vs.length ≤ allowance ∧ (settle spec).run c₁ = (.error e, c'))

/-- Dice break off after a first one that explodes as they do without it. -/
private theorem breaksOff_cons {allowance : Nat} {vs : List Value}
    (h : (settle spec).run c = (.ok v, c₁)) (explodes : spec.explodes v = true)
    (rest : BreaksOff spec allowance c₁ vs e c') :
    BreaksOff spec (allowance + 1) c (v :: vs) e c' := by
  obtain ⟨all, c₂, repeats, broken⟩ := rest
  refine ⟨List.forall_mem_cons.mpr ⟨explodes, all⟩, c₂, .cons h repeats, ?_⟩
  rw [List.length_cons, Nat.add_le_add_iff_right, Nat.add_right_cancel_iff]
  exact broken

/-- The first die ends its position, breaks it off, or is followed by another one. -/
private theorem first_die (spec : Spec) (allowance : Nat) (c : Context σ) :
    (∃ v c', spec.Ended [v] ∧ Repeats (settle spec) c [v] c') ∨
      (∃ e c', BreaksOff spec allowance c [] e c') ∨
        ∃ v c₁, (settle spec).run c = (.ok v, c₁) ∧ spec.explodes v = true := by
  match settled : (settle spec).run c with
  | (.error e, c') =>
    exact .inr (.inl ⟨e, c', nofun, c, .nil c, .inr ⟨Nat.zero_le _, settled⟩⟩)
  | (.ok v, c₁) =>
    cases explodes : spec.explodes v with
    | false => exact .inl ⟨v, c₁, .last explodes, .one settled⟩
    | true => exact .inr (.inr ⟨v, c₁, rfl, explodes⟩)

/-- Dice end or break off. -/
private theorem ended_or_breaksOff (spec : Spec) (allowance : Nat) (c : Context σ) :
    (∃ vs c', spec.Ended vs ∧ vs.length ≤ allowance + 1 ∧ Repeats (settle spec) c vs c') ∨
      ∃ vs e c', BreaksOff spec allowance c vs e c' := by
  induction allowance generalizing c with
  | zero =>
    obtain ⟨v, c', ended, die⟩ | ⟨e, c', broken⟩ | ⟨v, c₁, settled, explodes⟩ :=
      first_die spec 0 c
    · exact .inl ⟨[v], c', ended, Nat.le_refl 1, die⟩
    · exact .inr ⟨[], e, c', broken⟩
    · refine .inr ⟨[v], _, c₁, ?_, c₁, .one settled, .inl ⟨rfl, rfl, rfl⟩⟩
      exact List.forall_mem_singleton.mpr explodes
  | succ allowance ih =>
    obtain ⟨v, c', ended, die⟩ | ⟨e, c', broken⟩ | ⟨v, c₁, settled, explodes⟩ :=
      first_die spec (allowance + 1) c
    · exact .inl ⟨[v], c', ended, Nat.le_add_left 1 _, die⟩
    · exact .inr ⟨[], e, c', broken⟩
    · obtain ⟨vs, c', ended, within, rest⟩ | ⟨vs, e, c', rest⟩ := ih c₁
      · exact .inl ⟨v :: vs, c', .next explodes ended, Nat.succ_le_succ within,
          .cons settled rest⟩
      · exact .inr ⟨v :: vs, e, c', breaksOff_cons settled explodes rest⟩

/-- Dice that end make up the chain of their position. -/
private theorem run_chain_of_ended {vs : List Value} (ended : spec.Ended vs) {allowance : Nat}
    (within : vs.length ≤ allowance + 1) (dice : Repeats (settle spec) c vs c') :
    (chain spec allowance).run c = (.ok (spec.position vs), c') := by
  induction ended generalizing allowance c with
  | last settled =>
    cases dice with
    | cons run rest =>
      cases rest
      exact run_chain_of_settled run settled allowance
  | next explodes ended ih =>
    cases dice with
    | cons run rest =>
      have others := List.length_pos_iff.mpr ended.ne_nil
      have left := Nat.le_of_succ_le_succ within
      cases allowance with
      | zero => exact absurd others (Nat.not_lt.mpr left)
      | succ allowance => exact run_chain_succ_of_ok run explodes ended.ne_nil (ih left rest)

/-- Dice that break off fail their position. -/
private theorem run_chain_of_breaksOff {vs : List Value} {allowance : Nat}
    (h : BreaksOff spec allowance c vs e c') :
    (chain spec allowance).run c = (.error e, c') := by
  induction vs generalizing allowance c with
  | nil =>
    obtain ⟨_, _, dice, ⟨long, _⟩ | ⟨_, failed⟩⟩ := h
    · contradiction
    · cases dice
      exact run_chain_of_error failed allowance
  | cons v vs ih =>
    obtain ⟨all, c₂, dice, broken⟩ := h
    obtain ⟨explodes, all⟩ := List.forall_mem_cons.mp all
    cases dice with
    | cons run rest =>
      cases allowance with
      | zero =>
        obtain ⟨long, rfl, rfl⟩ | ⟨short, _⟩ := broken
        · obtain rfl := List.eq_nil_of_length_eq_zero (Nat.succ.inj long)
          cases rest
          exact run_chain_zero run explodes
        · contradiction
      | succ allowance =>
        rw [List.length_cons, Nat.add_le_add_iff_right, Nat.add_right_cancel_iff] at broken
        exact run_chain_succ_of_error run explodes (ih ⟨all, c₂, rest, broken⟩)

/-- A position comes to the chain of its dice, of which only so many may follow the first. -/
theorem chain_eq_ok_iff {allowance : Nat} {ch : Chain} :
    (chain spec allowance).run c = (.ok ch, c') ↔
      ∃ vs, spec.Ended vs ∧ vs.length ≤ allowance + 1 ∧ Repeats (settle spec) c vs c' ∧
        ch = spec.position vs := by
  constructor
  · intro run
    obtain ⟨vs, c₁, ended, within, dice⟩ | ⟨vs, e, c₁, broken⟩ :=
      ended_or_breaksOff spec allowance c
    · cases (run_chain_of_ended ended within dice).symm.trans run
      exact ⟨vs, ended, within, dice, rfl⟩
    · exact nomatch (run_chain_of_breaksOff broken).symm.trans run
  · rintro ⟨vs, ended, within, dice, rfl⟩
    exact run_chain_of_ended ended within dice

/-- A position fails if its dice break off. -/
theorem chain_eq_error_iff {allowance : Nat} :
    (chain spec allowance).run c = (.error e, c') ↔ ∃ vs, BreaksOff spec allowance c vs e c' := by
  constructor
  · intro run
    obtain ⟨vs, c₁, ended, within, dice⟩ | ⟨vs, e, c₁, broken⟩ :=
      ended_or_breaksOff spec allowance c
    · exact nomatch (run_chain_of_ended ended within dice).symm.trans run
    · cases (run_chain_of_breaksOff broken).symm.trans run
      exact ⟨vs, broken⟩
  · rintro ⟨vs, broken⟩
    exact run_chain_of_breaksOff broken

/-- No block of a roll changes the limits or gives back budget. -/
theorem closed_keeps :
    Closed fun x : Rolling σ _ ↦ ∀ c, (x.run c).2.limits = c.limits ∧
      (x.run c).2.remaining ≤ c.remaining where
  pure a c := ⟨rfl, Nat.le_refl _⟩
  get c := ⟨rfl, Nat.le_refl _⟩
  exceeded limit c := ⟨rfl, Nat.le_refl _⟩
  bind {α β x f} hx hf := by
    intro c
    have first := hx c
    rw [run_bind]
    generalize x.run c = r at first
    obtain ⟨result, c₁⟩ := r
    cases result with
    | error e => exact first
    | ok a =>
      have second := hf a c₁
      exact ⟨second.1.trans first.1, Nat.le_trans second.2 first.2⟩
  draw faces := by
    intro c
    cases left : c.remaining with
    | zero =>
      rw [run_draw_of_remaining_eq_zero _ _ left]
      exact ⟨rfl, Nat.le_of_eq left⟩
    | succ n =>
      rw [run_draw_of_remaining_eq_succ _ _ left]
      exact ⟨rfl, Nat.le_succ n⟩

/-- Dice leave the limits as they are. -/
theorem Repeats.limits {vs : List Value} (h : Repeats (settle spec) c vs c') :
    c'.limits = c.limits := by
  refine (h.invariant (I := fun c₁ ↦ c₁.limits = c.limits) (p := fun _ ↦ True) rfl ?_).1
  intro c₁ v c₂ same run
  have keeps := (closed_keeps.settle spec c₁).1
  rw [run] at keeps
  exact ⟨keeps.trans same, trivial⟩

/-- Whether dice settle on the values of positions, one position after the other, within the limits
of the context that they start from. -/
structure Falls (spec : Spec) (c : Context σ) (positions : List (List Value)) (c' : Context σ) :
    Prop where
  ended : ∀ vs ∈ positions, spec.Ended vs
  within : ∀ vs ∈ positions, vs.length ≤ c.limits.explosionDepth + 1
  dice : Repeats (settle spec) c positions.flatten c'

/-- A first position and the others fall one after the other. -/
private theorem falls_cons_iff {vs : List Value} {positions : List (List Value)} :
    Falls spec c (vs :: positions) c' ↔
      ∃ c₁, (spec.Ended vs ∧ vs.length ≤ c.limits.explosionDepth + 1 ∧
        Repeats (settle spec) c vs c₁) ∧ Falls spec c₁ positions c' := by
  constructor
  · intro h
    obtain ⟨ended, others⟩ := List.forall_mem_cons.mp h.ended
    obtain ⟨within, others'⟩ := List.forall_mem_cons.mp h.within
    obtain ⟨c₁, first, rest⟩ := h.dice.exists_of_append
    exact ⟨c₁, ⟨ended, within, first⟩, others, first.limits ▸ others', rest⟩
  · rintro ⟨c₁, ⟨ended, within, first⟩, rest⟩
    exact ⟨List.forall_mem_cons.mpr ⟨ended, rest.ended⟩,
      List.forall_mem_cons.mpr ⟨within, first.limits ▸ rest.within⟩, first.append rest.dice⟩

/-- Rows of dice come to what their positions come to, one after the other. -/
theorem chains_eq_ok_iff {n : Nat} {ch : Chain} :
    (chains spec n).run c = (.ok ch, c') ↔
      ∃ rows, rows.length = n ∧ Falls spec c rows c' ∧ ch = spec.positions rows := by
  induction n generalizing c ch with
  | zero =>
    rw [chains, run_pure, Prod.mk.injEq, Except.ok.injEq]
    constructor
    · rintro ⟨rfl, rfl⟩
      exact ⟨[], rfl, ⟨nofun, nofun, .nil c⟩, rfl⟩
    · rintro ⟨rows, none, falls, rfl⟩
      obtain rfl := List.eq_nil_of_length_eq_zero none
      cases falls.dice
      exact ⟨rfl, rfl⟩
  | succ n ih =>
    rw [chains, run_bind_of_ok (run_get c), run_bind_eq_ok_iff]
    simp only [run_bind_pure_eq_ok_iff, chain_eq_ok_iff, ih]
    constructor
    · rintro ⟨_, c₁, ⟨vs, ended, within, dice, rfl⟩, _, ⟨rows, rfl, falls, rfl⟩, rfl⟩
      exact ⟨vs :: rows, rfl, falls_cons_iff.mpr ⟨c₁, ⟨ended, within, dice⟩, falls⟩, rfl⟩
    · rintro ⟨rows, length, falls, rfl⟩
      obtain ⟨vs, rows, rfl⟩ := List.exists_cons_of_length_eq_add_one length
      obtain ⟨c₁, ⟨ended, within, dice⟩, falls⟩ := falls_cons_iff.mp falls
      exact ⟨_, c₁, ⟨vs, ended, within, dice, rfl⟩, _, ⟨rows, Nat.succ.inj length, falls, rfl⟩, rfl⟩

/-- Rows of dice fail if the dice of a position break off after some positions have ended. -/
theorem chains_eq_error_iff {n : Nat} :
    (chains spec n).run c = (.error e, c') ↔
      ∃ rows vs c₁, rows.length < n ∧ Falls spec c rows c₁ ∧
        BreaksOff spec c.limits.explosionDepth c₁ vs e c' := by
  induction n generalizing c with
  | zero =>
    rw [chains, run_pure]
    constructor
    · nofun
    · rintro ⟨_, _, _, fewer, _⟩
      contradiction
  | succ n ih =>
    rw [chains, run_bind_of_ok (run_get c), run_bind_eq_error_iff]
    simp only [run_bind_pure_eq_error_iff, chain_eq_ok_iff, chain_eq_error_iff, ih]
    constructor
    · rintro (⟨vs, broken⟩ | ⟨_, c₁, ⟨vs, ended, within, dice, rfl⟩, rows, ws, c₂, fewer, falls,
        broken⟩)
      · exact ⟨[], vs, c, Nat.succ_pos n, ⟨nofun, nofun, .nil c⟩, broken⟩
      · exact ⟨vs :: rows, ws, c₂, Nat.succ_lt_succ fewer,
          falls_cons_iff.mpr ⟨c₁, ⟨ended, within, dice⟩, falls⟩, dice.limits ▸ broken⟩
    · rintro ⟨rows, ws, c₂, fewer, falls, broken⟩
      cases rows with
      | nil =>
        cases falls.dice
        exact .inl ⟨ws, broken⟩
      | cons vs rows =>
        obtain ⟨c₁, ⟨ended, within, dice⟩, falls⟩ := falls_cons_iff.mp falls
        exact .inr ⟨_, c₁, ⟨vs, ended, within, dice, rfl⟩, rows, ws, c₂,
          Nat.lt_of_succ_lt_succ fewer, falls, dice.limits ▸ broken⟩

/-- Without an explosion each position is one die. -/
private theorem falls_singletons_iff (h : spec.modifiers.explode? = none) {vs : List Value} :
    Falls spec c (vs.map ([·])) c' ↔ Repeats (settle spec) c vs c' := by
  have flatten : (vs.map ([·])).flatten = vs := List.flatMap_singleton' vs
  constructor
  · intro falls
    exact flatten ▸ falls.dice
  · intro dice
    refine ⟨fun row hr ↦ ?_, fun row hr ↦ ?_, flatten.symm ▸ dice⟩
    · obtain ⟨v, _, rfl⟩ := List.mem_map.mp hr
      exact .last (by rw [Spec.explodes, h, Option.any_none])
    · obtain ⟨v, _, rfl⟩ := List.mem_map.mp hr
      exact Nat.le_add_left 1 _

/-- Without an explosion dice come to what they settle on, and count boosted. -/
theorem chains_eq_ok_iff_of_not_explodes (h : spec.modifiers.explode? = none) {n : Nat}
    {ch : Chain} :
    (chains spec n).run c = (.ok ch, c') ↔
      ∃ vs, vs.length = n ∧ Repeats (settle spec) c vs c' ∧
        ch = ⟨vs, vs.map spec.modifiers.boost.apply⟩ := by
  have positions (vs : List Value) :
      spec.positions (vs.map ([·])) = ⟨vs, vs.map spec.modifiers.boost.apply⟩ := by
    simp only [Spec.positions, Spec.position, h, List.flatMap_map, List.flatMap_singleton',
      List.map_cons, List.map_nil, ← List.map_eq_flatMap]
  rw [chains_eq_ok_iff]
  constructor
  · rintro ⟨rows, length, falls, rfl⟩
    have singletons : rows ∈ Set.range (List.map fun v : Value ↦ [v]) := by
      rw [Set.range_list_map]
      intro row hr
      obtain ⟨v, rfl⟩ := (falls.ended row hr).exists_eq_singleton h
      exact ⟨v, rfl⟩
    obtain ⟨vs, rfl⟩ := singletons
    rw [List.length_map] at length
    exact ⟨vs, length, (falls_singletons_iff h).mp falls, positions vs⟩
  · rintro ⟨vs, length, dice, rfl⟩
    refine ⟨vs.map ([·]), ?_, (falls_singletons_iff h).mpr dice, (positions vs).symm⟩
    rw [List.length_map, length]

/-- A roll of numbers is that of its dice, from the whole budget. -/
theorem run_evaluate (hn : spec.isNumeric = true) (c : Context σ) :
    (evaluate spec).run c = (chains spec spec.count >>= fun all ↦
      pure (Outcome.mk (all.natural.map .number)
        ((spec.modifiers.filterPool all.modified).map .number))).run c.refilled := by
  unfold evaluate
  rw [run_bind_of_ok (run_refill c), if_pos hn]
  rfl

/-- A roll of numbers is that of its positions, from the whole budget. -/
theorem evaluate_eq_ok_iff (hn : spec.isNumeric = true) {o : Outcome} :
    (evaluate spec).run c = (.ok o, c') ↔
      ∃ rows, rows.length = spec.count ∧ Falls spec c.refilled rows c' ∧
        o.natural = (spec.positions rows).natural.map .number ∧
        o.modified = (spec.modifiers.filterPool (spec.positions rows).modified).map .number := by
  rw [run_evaluate hn, run_bind_pure_eq_ok_iff]
  simp only [chains_eq_ok_iff]
  constructor
  · rintro ⟨_, ⟨rows, length, falls, rfl⟩, rfl⟩
    exact ⟨rows, length, falls, rfl, rfl⟩
  · rintro ⟨rows, length, falls, natural, modified⟩
    obtain ⟨_, _⟩ := o
    cases natural
    cases modified
    exact ⟨_, ⟨rows, length, falls, rfl⟩, rfl⟩

/-- A roll of numbers fails where the dice of a position break off. -/
theorem evaluate_eq_error_iff (hn : spec.isNumeric = true) :
    (evaluate spec).run c = (.error e, c') ↔
      ∃ rows vs c₁, rows.length < spec.count ∧ Falls spec c.refilled rows c₁ ∧
        BreaksOff spec c.limits.explosionDepth c₁ vs e c' := by
  rw [run_evaluate hn, run_bind_pure_eq_error_iff]
  exact chains_eq_error_iff

end Rolling

end DicePool
