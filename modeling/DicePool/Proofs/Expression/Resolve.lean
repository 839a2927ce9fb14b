import DicePool.Expression.Resolve
import Mathlib.Algebra.BigOperators.Group.List.Basic
import Mathlib.Algebra.Order.Ring.Int

/-!
# What resolving does

A clause is permitted or not on its own, but for the sum of the adjustments so far, which has to
stay within bounds after every clause. Permitted clauses act on the draft one after the other: of
each kind of modifier the last one stays, adjustments add up.
-/

namespace DicePool.Expression

/-- The number of a token, or the default if there is none. -/
def numberOr (default : Int) (n? : Option Token) : Int := n?.elim default fun n ↦ n.number

/-- What a signed number adds; nothing if there is none. -/
def signed (negative : Bool) (n? : Option Token) : Int :=
  if negative then -numberOr 0 n? else numberOr 0 n?

/-- A count with its default, which saturates. -/
def countOr (default : Int) (n? : Option Token) : Nat := min (numberOr default n?).toNat maxCount

/-- A sequence of readings succeeds exactly if each of them does. -/
theorem bind_eq_ok {ε α β : Type} {x : Except ε α} {f : α → Except ε β} {b : β} :
    (x >>= f) = .ok b ↔ ∃ a, x = .ok a ∧ f a = .ok b := by
  cases x with
  | error e => simp [bind, Except.bind]
  | ok a => simp [bind, Except.bind]

/-- A sequence of readings fails where the first of them fails, or the second on what it reads. -/
theorem bind_eq_error {ε α β : Type} {x : Except ε α} {f : α → Except ε β} {e : ε} :
    (x >>= f) = .error e ↔ x = .error e ∨ ∃ a, x = .ok a ∧ f a = .error e := by
  cases x with
  | error e' => simp [bind, Except.bind]
  | ok a => simp [bind, Except.bind]

private theorem literal_eq_ok {default v : Int} {n? : Option Token} :
    literal default n? = .ok v ↔ (∀ n ∈ n?, n.number ≤ maxLiteral) ∧ v = numberOr default n? := by
  cases n? with
  | none => simp [literal, numberOr, eq_comm]
  | some n => by_cases h : n.number ≤ maxLiteral <;> simp [literal, numberOr, h, eq_comm]

private theorem count_eq_ok {default : Int} {n? : Option Token} {v : Nat} :
    count default n? = .ok v ↔ (∀ n ∈ n?, n.number < countBound) ∧ v = countOr default n? := by
  cases n? with
  | none => simp [count, countOr, numberOr, eq_comm]
  | some n => by_cases h : n.number < countBound <;> simp [count, countOr, numberOr, h, eq_comm]

private theorem adjusted_eq_ok {total v : Int} {negative : Bool} {n? : Option Token}
    (ht : total.natAbs ≤ maxLiteral) :
    adjusted total negative n? = .ok v ↔
      (∀ n ∈ n?, n.number ≤ maxLiteral) ∧ (total + signed negative n?).natAbs ≤ maxLiteral ∧
        v = total + signed negative n? := by
  cases n? with
  | none => cases negative <;> simp [adjusted, signed, numberOr, ht, eq_comm]
  | some n =>
    have moved : (if negative then total - (n.number : Int) else total + n.number) =
        total + signed negative (some n) := by
      cases negative <;> simp [signed, numberOr, Int.sub_eq_add_neg]
    by_cases hn : n.number ≤ maxLiteral
    · have read : literal 0 (some n) = .ok (n.number : Int) := if_pos hn
      have step : adjusted total negative (some n) =
          if (total + signed negative (some n)).natAbs ≤ maxLiteral
          then .ok (total + signed negative (some n)) else .error (.atToken .numberTooLarge n) := by
        simp only [adjusted, read, ← moved]
        rfl
      rw [step]
      split
      · next h => simp [hn, h, eq_comm]
      · next h => simp [h]
    · have read : literal 0 (some n) = .error (.atToken .numberTooLarge n) := if_neg hn
      have step : adjusted total negative (some n) = .error (.atToken .numberTooLarge n) := by
        simp only [adjusted, read]
        rfl
      simp [step, hn]

namespace Clause

/-- Whether the numbers of a clause are allowed on their own. -/
def Permitted : Clause → Prop
  | boost operator n? =>
    (∀ n ∈ n?, n.number ≤ maxLiteral) ∧ (operator = some .divide → numberOr 0 n? ≠ 0)
  | adjust _ n? | evaluator _ n? | test _ _ n? => ∀ n ∈ n?, n.number ≤ maxLiteral
  | keep _ n? | drop _ n? => ∀ n ∈ n?, n.number < countBound
  | compared _ _ => False

/-- How far a clause moves the adjustment. -/
def shift : Clause → Int
  | adjust negative n? => signed negative n?
  | _ => 0

/-- The condition of an evaluator. -/
def evaluator? (maxFace : Int) : Clause → Option Condition
  | evaluator c n? => some ⟨c, numberOr maxFace n?⟩
  | _ => none

/-- The modifier that a clause sets, other than the adjustment. -/
def modifier? (maxFace : Int) : Clause → Option Modifier
  | boost operator n? => some (.boost ⟨operator.getD .add, numberOr 0 n?⟩)
  | keep layer n? => some (.keep ⟨layer, countOr (selectionDefault maxFace layer) n?⟩)
  | drop layer n? => some (.drop ⟨layer, countOr (selectionDefault maxFace layer) n?⟩)
  | test t c n? => some (t.modifier ⟨c.getD .equal, numberOr (t.default maxFace) n?⟩)
  | _ => none

/-- The draft after a permitted clause. -/
def apply (maxFace : Int) (d : Draft) (c : Clause) : Draft where
  modifiers :=
    match c with
    | adjust _ _ => d.modifiers.insert (.adjust (d.modifiers.adjustment + c.shift))
    | _ => (c.modifier? maxFace).elim d.modifiers d.modifiers.insert
  evaluator? := (c.evaluator? maxFace).or d.evaluator?

/-- Resolving a clause succeeds exactly if it is permitted and leaves the adjustment in bounds, and
then it acts on the draft. -/
theorem resolve_eq_ok {maxFace : Int} {stop : Nat} {d d' : Draft} {c : Clause}
    (hd : d.modifiers.adjustment.natAbs ≤ maxLiteral) :
    c.resolve maxFace stop d = .ok d' ↔
      c.Permitted ∧ (d.modifiers.adjustment + c.shift).natAbs ≤ maxLiteral ∧
        d' = c.apply maxFace d := by
  cases c with
  | boost operator n? =>
    have divides : operator.getD .add = .divide ↔ operator = some .divide := by
      cases operator <;> simp
    simp only [resolve, bind_eq_ok, literal_eq_ok, divides]
    by_cases hz : operator = some .divide ∧ numberOr 0 n? = 0
    · cases n? <;> simp [Permitted, hz]
    · have permitted : operator = some .divide → numberOr 0 n? ≠ 0 := fun ho hn ↦ hz ⟨ho, hn⟩
      simp only [and_assoc, exists_and_left, exists_eq_left, if_neg hz, Except.ok.injEq]
      constructor
      · rintro ⟨hn, same⟩
        exact ⟨⟨hn, permitted⟩, (Int.add_zero _).symm ▸ hd, same.symm⟩
      · rintro ⟨⟨hn, _⟩, _, same⟩
        exact ⟨hn, same.symm⟩
  | adjust negative n? =>
    simp only [resolve, bind_eq_ok, adjusted_eq_ok hd]
    simp [Permitted, shift, apply, and_assoc, evaluator?, Draft.insert, eq_comm]
  | evaluator comparison n? =>
    simp only [resolve, bind_eq_ok, literal_eq_ok]
    simp [Permitted, shift, apply, modifier?, evaluator?, hd, eq_comm]
  | keep layer n? =>
    simp only [resolve, bind_eq_ok, count_eq_ok]
    simp [Permitted, shift, apply, modifier?, evaluator?, Draft.insert, hd, eq_comm]
  | drop layer n? =>
    simp only [resolve, bind_eq_ok, count_eq_ok]
    simp [Permitted, shift, apply, modifier?, evaluator?, Draft.insert, hd, eq_comm]
  | test t comparison n? =>
    simp only [resolve, bind_eq_ok, literal_eq_ok]
    simp [Permitted, shift, apply, modifier?, evaluator?, Draft.insert, hd, eq_comm]
  | compared method comparison => simp [resolve, Permitted]

/-- A clause moves the adjustment by its shift. -/
theorem adjustment_apply (maxFace : Int) (d : Draft) (c : Clause) :
    (c.apply maxFace d).modifiers.adjustment = d.modifiers.adjustment + c.shift := by
  cases c with
  | adjust negative n? => rfl
  | test t comparison n? => cases t <;> exact (Int.add_zero _).symm
  | _ => exact (Int.add_zero _).symm

/-- A clause keeps the adjustment written. -/
theorem adjust?_apply (maxFace : Int) {d : Draft} (c : Clause) {a : Int}
    (h : d.modifiers.adjust? = some a) :
    (c.apply maxFace d).modifiers.adjust? = some (a + c.shift) := by
  have kept : some (a + 0) = some a := by rw [Int.add_zero]
  cases c with
  | adjust negative n? =>
    change some (d.modifiers.adjustment + _) = _
    rw [Modifiers.adjustment, h, Option.getD_some]
  | test t comparison n? => cases t <;> exact h.trans kept.symm
  | _ => exact h.trans kept.symm

/-- A clause replaces the modifier of its kind and no other; adjustments aside. -/
theorem get?_apply (maxFace : Int) (d : Draft) (c : Clause) {k : ModifierKind} (hk : k ≠ .adjust) :
    (c.apply maxFace d).modifiers.get? k =
      ((c.modifier? maxFace).filter fun m ↦ m.kind = k).or (d.modifiers.get? k) := by
  have inserted (m : Modifier) : (d.modifiers.insert m).get? k =
      ((some m).filter fun m ↦ m.kind = k).or (d.modifiers.get? k) := by
    rw [Option.filter_some]
    by_cases h : m.kind = k
    · rw [if_pos (decide_eq_true h), ← h, Modifiers.get?_insert_self, Option.some_or]
    · rw [if_neg (by simpa using h), Modifiers.get?_insert_of_ne _ _ (Ne.symm h), Option.none_or]
  cases c with
  | adjust negative n? => exact Modifiers.get?_insert_of_ne _ _ hk
  | evaluator comparison n? => rfl
  | compared method comparison => rfl
  | boost operator n? => exact inserted (.boost ⟨operator.getD .add, numberOr 0 n?⟩)
  | keep layer n? => exact inserted (.keep ⟨layer, countOr (selectionDefault maxFace layer) n?⟩)
  | drop layer n? => exact inserted (.drop ⟨layer, countOr (selectionDefault maxFace layer) n?⟩)
  | test t comparison n? =>
    exact inserted (t.modifier ⟨comparison.getD .equal, numberOr (t.default maxFace) n?⟩)

end Clause

private theorem forall_mem_scanl_cons {P : Int → Prop} (a x : Int) (xs : List Int) :
    (∀ s ∈ (x :: xs).scanl (· + ·) a, P s) ↔ P a ∧ ∀ s ∈ xs.scanl (· + ·) (a + x), P s := by
  rw [List.scanl_cons, List.forall_mem_cons]

/-- Running sums begin with the initial one. -/
theorem init_mem_scanl (a : Int) (xs : List Int) : a ∈ xs.scanl (· + ·) a := by
  cases xs with
  | nil => exact List.mem_singleton.mpr rfl
  | cons x xs =>
    rw [List.scanl_cons]
    exact List.mem_cons_self

/-- The draft after a row of permitted clauses. -/
def draftOf (maxFace : Int) (cs : List Clause) (d : Draft) : Draft :=
  cs.foldl (Clause.apply maxFace) d

/-- A row of clauses is resolved exactly if all of them are permitted and every running sum of the
adjustments stays in bounds. -/
theorem foldlM_resolve_eq_ok {maxFace : Int} {stop : Nat} {cs : List Clause} {d d' : Draft}
    (hd : d.modifiers.adjustment.natAbs ≤ maxLiteral) :
    cs.foldlM (Clause.resolve maxFace stop) d = .ok d' ↔
      (∀ c ∈ cs, c.Permitted) ∧
        (∀ s ∈ (cs.map Clause.shift).scanl (· + ·) d.modifiers.adjustment, s.natAbs ≤ maxLiteral) ∧
        d' = draftOf maxFace cs d := by
  induction cs generalizing d with
  | nil =>
    simp [draftOf, hd, pure, Except.pure, eq_comm]
  | cons c cs ih =>
    rw [List.foldlM_cons, bind_eq_ok, List.forall_mem_cons, List.map_cons, forall_mem_scanl_cons]
    constructor
    · rintro ⟨d₁, resolved, rest⟩
      obtain ⟨permitted, bound, rfl⟩ := (Clause.resolve_eq_ok hd).mp resolved
      rw [← Clause.adjustment_apply maxFace] at bound
      obtain ⟨all, sums, rfl⟩ := (ih bound).mp rest
      rw [Clause.adjustment_apply] at sums
      exact ⟨⟨permitted, all⟩, ⟨hd, sums⟩, rfl⟩
    · rintro ⟨⟨permitted, all⟩, ⟨_, sums⟩, rfl⟩
      have bound : (d.modifiers.adjustment + c.shift).natAbs ≤ maxLiteral :=
        sums _ (init_mem_scanl _ _)
      refine ⟨c.apply maxFace d, (Clause.resolve_eq_ok hd).mpr ⟨permitted, bound, rfl⟩, ?_⟩
      rw [← Clause.adjustment_apply maxFace] at bound sums
      exact (ih bound).mpr ⟨all, sums, rfl⟩

/-- Adjustments add up. -/
theorem adjust?_draftOf (maxFace : Int) (cs : List Clause) {d : Draft} {a : Int}
    (h : d.modifiers.adjust? = some a) :
    (draftOf maxFace cs d).modifiers.adjust? = some (a + (cs.map Clause.shift).sum) := by
  induction cs generalizing d a with
  | nil =>
    rw [List.map_nil, List.sum_nil, Int.add_zero]
    exact h
  | cons c cs ih =>
    rw [List.map_cons, List.sum_cons, ← Int.add_assoc]
    exact ih (c.adjust?_apply maxFace h)

private theorem getLast?_cons_eq_or {α : Type} (x : α) (xs : List α) :
    (x :: xs).getLast? = xs.getLast?.or (some x) := by
  rw [List.getLast?_cons]
  cases xs.getLast? <;> rfl

private theorem getLast?_filterMap_cons {α β : Type} (f : α → Option β) (x : α) (xs : List α) :
    ((x :: xs).filterMap f).getLast? = (xs.filterMap f).getLast?.or (f x) := by
  rw [List.filterMap_cons]
  cases f x with
  | none => rw [Option.or_none]
  | some b => exact getLast?_cons_eq_or b _

/-- Of every kind of modifier but the adjustment the last one stays. -/
theorem get?_draftOf (maxFace : Int) (cs : List Clause) (d : Draft) {k : ModifierKind}
    (hk : k ≠ .adjust) :
    (draftOf maxFace cs d).modifiers.get? k =
      (cs.filterMap fun c ↦ (c.modifier? maxFace).filter fun m ↦ m.kind = k).getLast?.or
        (d.modifiers.get? k) := by
  induction cs generalizing d with
  | nil => rfl
  | cons c cs ih =>
    change (draftOf maxFace cs (c.apply maxFace d)).modifiers.get? k = _
    rw [ih, Clause.get?_apply _ _ _ hk, getLast?_filterMap_cons, Option.or_assoc]

/-- The last evaluator stays. -/
theorem evaluator?_draftOf (maxFace : Int) (cs : List Clause) (d : Draft) :
    (draftOf maxFace cs d).evaluator? =
      (cs.filterMap fun c ↦ c.evaluator? maxFace).getLast?.or d.evaluator? := by
  induction cs generalizing d with
  | nil => rfl
  | cons c cs ih =>
    change (draftOf maxFace cs (c.apply maxFace d)).evaluator? = _
    rw [ih, getLast?_filterMap_cons, Option.or_assoc]
    rfl

end DicePool.Expression
