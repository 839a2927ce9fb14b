import DicePool.Expression.Parse
import DicePool.Proofs.Roll.Closed
import DicePool.Proofs.Roll.SameDice
import DicePool.Proofs.Roll.Script

/-!
# Compounding dice

An explosion that compounds rolls the same dice as one that does not. It lists only the first die of
each position and counts the dice of a position as one value, their sum; where nothing wraps around,
the total stays the same, and with it the check.
-/

namespace DicePool

/-- A specification whose explosion compounds, or one whose explosion does not. -/
def Spec.compounding (spec : Spec) (compound : Bool) : Spec :=
  { spec with
    modifiers :=
      { spec.modifiers with explode? := spec.modifiers.explode?.map fun e ↦ { e with compound } } }

/-- Of rows that are not empty, the first values stand one for each. -/
private theorem map_some_firsts {rows : List (List Value)} (h : ∀ vs ∈ rows, vs ≠ []) :
    (rows.flatMap (List.take 1)).map some = rows.map List.head? := by
  induction rows with
  | nil => rfl
  | cons vs rows ih =>
    obtain ⟨first, others⟩ := List.forall_mem_cons.mp h
    obtain ⟨v, vs, rfl⟩ := List.exists_cons_of_ne_nil first
    rw [List.flatMap_cons, List.map_append, ih others]
    rfl

/-- The first values of rows stand among all values in their order. -/
private theorem firsts_sublist (rows : List (List Value)) :
    (rows.flatMap (List.take 1)).Sublist rows.flatten := by
  induction rows with
  | nil => exact .slnil
  | cons vs rows ih =>
    rw [List.flatMap_cons, List.flatten_cons]
    exact (List.take_sublist 1 vs).append ih

variable {spec : Spec} {e : Explosion}

namespace Spec

/-- Compounding does not change which dice are drawn. -/
theorem sameDice_compounding (spec : Spec) (compound : Bool) :
    spec.SameDice (spec.compounding compound) where
  count := rfl
  faces := rfl
  boost := rfl
  reroll := rfl
  condition := by
    rw [compounding, Option.map_map]
    rfl

/-- A position of compounding dice comes to what its explosion makes of them. -/
theorem position_compounding (he : spec.modifiers.explode? = some e) (compound : Bool)
    (vs : List Value) :
    (spec.compounding compound).position vs =
      (Explosion.mk e.condition compound e.penetrate).position spec.modifiers.boost vs := by
  unfold position
  simp only [compounding, he, Option.map_some]
  rfl

/-- Dice that do not compound are listed one by one. -/
theorem natural_positions_plain (he : spec.modifiers.explode? = some e)
    (rows : List (List Value)) :
    ((spec.compounding false).positions rows).natural = rows.flatten := by
  rw [positions, ← List.flatMap_id']
  apply congrArg rows.flatMap
  funext vs
  rw [position_compounding he]
  cases hp : e.penetrate <;> rfl

/-- Of compounding dice the first of each position is listed. -/
theorem natural_positions_compound (he : spec.modifiers.explode? = some e)
    (rows : List (List Value)) :
    ((spec.compounding true).positions rows).natural = rows.flatMap (List.take 1) := by
  apply congrArg rows.flatMap
  funext vs
  rw [position_compounding he]
  cases hp : e.penetrate <;> rfl

/-- Compounding does not change what the values of all positions add up to exactly. -/
theorem sum_positions_compounding (he : spec.modifiers.explode? = some e)
    {rows : List (List Value)} (addable : Addable (spec.addends rows)) :
    ((spec.compounding true).positions rows).modified.sum =
      ((spec.compounding false).positions rows).modified.sum := by
  have rowwise (compound : Bool) : ((spec.compounding compound).positions rows).modified.sum =
      (rows.map fun vs ↦ ((spec.compounding compound).position vs).modified.sum).sum := by
    show (rows.flatMap _).sum = _
    rw [List.flatMap_def, List.sum_flatten, List.map_map]
    rfl
  rw [rowwise, rowwise]
  apply congrArg List.sum
  apply List.map_congr_left
  intro vs hvs
  have row := addable.of_mem_rows hvs
  rw [position_compounding he, position_compounding he, Explosion.position_eq_closed _ row,
    Explosion.position_eq_closed _ row, Explosion.sum_closed]

/-- Without keep and drop, an outcome that can be added up totals the exact sum of the values of all
positions and the adjustment. -/
theorem total_outcome {s : Spec} (hn : s.isNumeric = true) (hs : s.modifiers.selects = false)
    {rows : List (List Value)} (addable : Addable (s.addends rows)) :
    (s.outcome rows).total s =
      (s.positions rows).modified.sum + (s.modifiers.adjustment : Value) := by
  rw [outcome, Outcome.total_numbers hn, Modifiers.filterPool_of_not_selects hs]
  exact addable.positions.sum_plus_eq

/-- Compounding does not change the total of an outcome that can be added up. -/
theorem total_compounding (hn : spec.isNumeric = true) (he : spec.modifiers.explode? = some e)
    (hs : spec.modifiers.selects = false) {rows : List (List Value)}
    (addable : Addable (spec.addends rows)) :
    ((spec.compounding true).outcome rows).total (spec.compounding true) =
      ((spec.compounding false).outcome rows).total (spec.compounding false) := by
  have total (compound : Bool) := total_outcome (s := spec.compounding compound) hn hs addable
  rw [total true, total false, sum_positions_compounding he addable]
  rfl

/-- As many values count for compounding dice as there are positions. -/
theorem length_compounding (hs : spec.modifiers.selects = false) {rows : List (List Value)}
    (ended : ∀ vs ∈ rows, spec.Ended vs) :
    ((spec.compounding true).outcome rows).modified.length = rows.length := by
  have selects : (spec.compounding true).modifiers.selects = false := hs
  have compounds : ∀ x ∈ (spec.compounding true).modifiers.explode?, x.compound = true := by
    intro x hx
    obtain ⟨_, _, rfl⟩ := Option.map_eq_some_iff.mp hx
    rfl
  rw [outcome, List.length_map, Modifiers.filterPool_of_not_selects selects]
  apply length_positions compounds
  intro vs hvs
  exact (spec.sameDice_compounding true).ended (ended vs hvs)

end Spec

/-- What compounding changes of a scored roll whose positions fall on given values, and what it does
not: the first result is the one without compounding, which lists all dice; the second one lists the
first die of each position and counts one value for it. Both total the same if the roll can be added
up in any order and grouping. -/
structure Scored.Regroups (spec : Spec) (rows : List (List Value)) (s s' : Scored) : Prop where
  total : Addable (spec.addends rows) → s'.total = s.total
  pass : Addable (spec.addends rows) → s'.pass? = s.pass?
  natural : s.natural = rows.flatten.map .number
  firsts : s'.natural.map some = rows.map fun vs ↦ vs.head?.map .number
  sublist : s'.natural.Sublist s.natural
  modified : s'.modified.length = rows.length

/-- Compounding regroups the outcome of positions. -/
theorem Scored.regroups (hn : spec.isNumeric = true) (he : spec.modifiers.explode? = some e)
    (hs : spec.modifiers.selects = false) {rows : List (List Value)}
    (ended : ∀ vs ∈ rows, spec.Ended vs) (name name' : String) :
    Regroups spec rows (((spec.compounding false).outcome rows).score name (spec.compounding false))
      (((spec.compounding true).outcome rows).score name' (spec.compounding true)) where
  total := Spec.total_compounding hn he hs
  pass addable := by
    have total := Spec.total_compounding hn he hs addable
    exact congrArg (fun t ↦ spec.modifiers.totalCheck?.map fun check ↦ check.holds t) total
  natural := congrArg (List.map Face.number) (Spec.natural_positions_plain he rows)
  firsts := by
    show (((spec.compounding true).positions rows).natural.map Face.number).map some = _
    have firsts := map_some_firsts fun vs hvs ↦ (ended vs hvs).ne_nil
    have faces := congrArg (List.map (Option.map Face.number)) firsts
    rw [List.map_map, List.map_map] at faces
    rw [Spec.natural_positions_compound he, List.map_map]
    exact faces
  sublist := by
    show (((spec.compounding true).positions rows).natural.map Face.number).Sublist
      (((spec.compounding false).positions rows).natural.map Face.number)
    rw [Spec.natural_positions_compound he, Spec.natural_positions_plain he]
    exact (firsts_sublist rows).map Face.number
  modified := Spec.length_compounding hs ended

namespace Rolling

variable {σ : Type} [Roller σ]

/-- Exploding dice of which none is kept or dropped draw the same dice with and without compounding,
from every roller: both rolls fail with the same error, or their positions fall on the same values,
one position for each die, and compounding only regroups these. -/
theorem score_compounding (spec : Spec) (hn : spec.isNumeric = true)
    (he : spec.modifiers.explode? = some e) (hs : spec.modifiers.selects = false)
    (name name' : String) (c : Context σ) :
    (∃ error c', (score name (spec.compounding false)).run c = (.error error, c') ∧
      (score name' (spec.compounding true)).run c = (.error error, c')) ∨
    ∃ rows c' s s', rows.length = spec.count ∧ Falls spec c.refilled rows c' ∧
      (score name (spec.compounding false)).run c = (.ok s, c') ∧
      (score name' (spec.compounding true)).run c = (.ok s', c') ∧ s.Regroups spec rows s' := by
  have same := spec.sameDice_compounding
  obtain ⟨error, c', failed⟩ | ⟨rows, c', length, falls⟩ := evaluate_cases hn c
  · exact .inl ⟨error, c', run_bind_of_error (run_evaluate_of_error (same false) hn failed),
      run_bind_of_error (run_evaluate_of_error (same true) hn failed)⟩
  · exact .inr ⟨rows, c', _, _, length, falls,
      run_bind_of_ok (run_evaluate_of_falls (same false) hn length falls),
      run_bind_of_ok (run_evaluate_of_falls (same true) hn length falls),
      Scored.regroups hn he hs falls.ended name name'⟩

private def penetratingSixes : Spec where
  count := 2
  faces := .cube
  modifiers :=
    { explode? := some ⟨⟨.equal, 6⟩, false, true⟩, totalCheck? := some ⟨.greaterEqual, 16⟩ }

private def twoSixesTwoFour : Context Source := .new {} (.cycle true [6, 6, 2, 4] 0)

/-- Two dice, of which one falls on six twice and then on two, and the other on four: they are
listed as four dice or as two, and total sixteen either way. -/
theorem score_compounding_twoSixesTwoFour :
    ∃ rows s s' c', rows.length = 2 ∧
      (score "2d6xp" (penetratingSixes.compounding false)).run twoSixesTwoFour = (.ok s, c') ∧
      (score "2d6xxp" (penetratingSixes.compounding true)).run twoSixesTwoFour = (.ok s', c') ∧
      s.natural = [.number 6, .number 6, .number 2, .number 4] ∧ s.total = 16 ∧ s'.total = 16 ∧
      s.Regroups penetratingSixes rows s' := by
  obtain ⟨s, c₁, run, shown⟩ := exists_result
    (r := (score "2d6xp" (penetratingSixes.compounding false)).run twoSixesTwoFour)
    (f := fun s ↦ (s.natural, s.total))
    (b := ([.number 6, .number 6, .number 2, .number 4], 16)) (by decide +kernel)
  obtain ⟨natural, total⟩ := Prod.mk.inj shown
  obtain ⟨e, c', failed, _⟩ | ⟨rows, c', t, s', length, _, ends, ends', regroups⟩ :=
    score_compounding penetratingSixes rfl rfl rfl "2d6xp" "2d6xxp" twoSixesTwoFour
  · exact nomatch run.symm.trans failed
  · cases run.symm.trans ends
    have dice : rows.flatten.map Face.number = [6, 6, 2, 4].map Face.number :=
      regroups.natural.symm.trans natural
    have values : rows.flatten = [6, 6, 2, 4] :=
      List.map_injective_iff.mpr (fun _ _ ↦ Face.number.inj) dice
    have addable : Addable (penetratingSixes.addends rows) := by
      rw [Spec.addends, values]
      exact ⟨1, 22, by decide +kernel, by decide, by decide⟩
    exact ⟨rows, s, s', c₁, length, run, ends', natural, total,
      (regroups.total addable).trans total, regroups⟩

private def halves : Spec where
  count := 1
  faces := .list [.number (-9223372036854775808), .number 1, .number 2] (by decide +kernel)
  modifiers :=
    { boost? := some ⟨.divide, 2⟩, adjust? := some 0, success? := some ⟨.greaterEqual, 2⟩,
      explode? := some ⟨⟨.notEqual, 1⟩, false, false⟩ }

/-- Halves of the least integer, of one and of two that explode until they come to one: added up
from the first on they wrap around to another total than from the last on. -/
theorem not_forall_total_compounding :
    ∃ s s' c' c'',
      Expression.parse "1d{-9223372036854775808,1,2}/2x!=1" = .ok (halves.compounding false) ∧
      Expression.parse "1d{-9223372036854775808,1,2}/2xx!=1" = .ok (halves.compounding true) ∧
      (score "plain" (halves.compounding false)).run
        (Context.new {} (Source.cycle true [1, 1, 1, 2, 2, 3] 0)) = (.ok s, c') ∧
      (score "compound" (halves.compounding true)).run
        (Context.new {} (Source.cycle true [1, 1, 1, 2, 2, 3] 0)) = (.ok s', c'') ∧
      s.total = -4611686018427387902 ∧ s'.total = 4611686018427387906 := by
  obtain ⟨s, c', run, total⟩ := exists_result
    (r := (score "plain" (halves.compounding false)).run
      (Context.new {} (Source.cycle true [1, 1, 1, 2, 2, 3] 0)))
    (f := Scored.total) (b := -4611686018427387902) (by decide +kernel)
  obtain ⟨s', c'', run', total'⟩ := exists_result
    (r := (score "compound" (halves.compounding true)).run
      (Context.new {} (Source.cycle true [1, 1, 1, 2, 2, 3] 0)))
    (f := Scored.total) (b := 4611686018427387906) (by decide +kernel)
  exact ⟨s, s', c', c'', by decide +kernel, by decide +kernel, run, run', total, total'⟩

end Rolling

end DicePool
