import DicePool.Expression.Parse
import DicePool.Proofs.Analysis.Unwrapped
import DicePool.Proofs.Roll.SameDice

/-!
# Keeping is dropping from the other end

Of a pool of a known size, keeping some values at one end leaves what dropping all others at the
other end does, in the other order. Keep and drop modifiers of a specification are therefore
exchanged without a change to its analysis, and without explosions, which change the size of the
pool, to its rolls, as long as the values that are left add up to the same in both orders.
-/

namespace DicePool

/-- The other end of a sorted pool. -/
def Layer.opposite : Layer → Layer
  | high => low
  | low => high

/-- A pool sorted from the other end is reversed. -/
theorem Layer.sorted_opposite (layer : Layer) (values : List Value) :
    layer.opposite.sorted values = (layer.sorted values).reverse := by
  have perm : values.Perm (layer.sorted values).reverse :=
    (layer.sorted_perm values).symm.trans (List.reverse_perm _).symm
  have ordered : layer.opposite.Orders (layer.sorted values).reverse := by
    cases layer with
    | high => exact List.pairwise_reverse.mpr (Layer.high.orders_sorted values)
    | low => exact List.pairwise_reverse.mpr (Layer.low.orders_sorted values)
  exact Layer.sorted_eq ordered perm

/-- Keeping values at one end leaves those that are left when all others are dropped at the other
end. -/
theorem Selection.keep_perm_drop (layer : Layer) (k : Nat) (values : List Value) :
    (Selection.keep ⟨layer, k⟩ values).Perm
      (Selection.drop ⟨layer.opposite, values.length - k⟩ values) := by
  have length : (layer.sorted values).length = values.length :=
    (layer.sorted_perm values).length_eq
  have kept : (layer.sorted values).take k =
      (layer.sorted values).take (values.length - (values.length - k)) := by
    rw [List.take_eq_take_iff, length]
    omega
  rw [keep, drop, layer.sorted_opposite, List.drop_reverse, length]
  exact kept ▸ (List.reverse_perm _).symm

namespace Spec

/-- A specification with another modifier. -/
def insert (spec : Spec) (x : Modifier) : Spec :=
  { spec with modifiers := spec.modifiers.insert x }

/-- Whether a specification that keeps and drops other dice leaves the same of each pool with one
value for each die. -/
def SelectsAlike (spec : Spec) (keep? drop? : Option Selection) : Prop :=
  ∀ values : List Value, values.length = spec.count →
    (spec.modifiers.filterPool values).Perm ((spec.select keep? drop?).modifiers.filterPool values)

/-- Dice are dropped at the other end if they are to be left out of those that are kept. -/
private theorem insert_drop_eq (spec : Spec) (hk : spec.modifiers.keep? = none) (s s' : Selection) :
    spec.insert (.drop s) = (spec.insert (.keep s')).select none (some s) := by
  rw [← hk]
  rfl

/-- Keeping dice and dropping the others leave the same of each pool. -/
private theorem selectsAlike_keep (spec : Spec) (hd : spec.modifiers.drop? = none) (layer : Layer)
    (k : Nat) :
    (spec.insert (.keep ⟨layer, k⟩)).SelectsAlike none
      (some ⟨layer.opposite, spec.count - k⟩) := by
  intro values length
  have length : values.length = spec.count := length
  simp only [insert, select, Modifiers.insert, Modifiers.filterPool, hd, Option.elim_some,
    Option.elim_none, ← length]
  exact Selection.keep_perm_drop layer k values

end Spec

variable {spec : Spec} {keep? drop? : Option Selection}

namespace Analysis

/-- A pool has one value for each die. -/
private theorem length_expand {faces : List Value} {counts : List Nat}
    (h : counts.length = faces.length) : (Pools.expand faces counts).length = counts.sum := by
  induction faces generalizing counts with
  | nil =>
    obtain rfl := List.eq_nil_of_length_eq_zero h
    rfl
  | cons f faces ih =>
    obtain ⟨c, counts, rfl⟩ := List.exists_cons_of_length_eq_add_one h
    rw [Pools.expand, List.zip_cons_cons, List.flatMap_cons, List.length_append,
      List.length_replicate, List.sum_cons, ← Pools.expand, ih (Nat.succ.inj h)]

/-- Each value of a pool is one of the faces. -/
private theorem mem_of_mem_expand {faces : List Value} {counts : List Nat} {v : Value}
    (hv : v ∈ Pools.expand faces counts) : v ∈ faces := by
  obtain ⟨e, he, hv⟩ := List.mem_flatMap.mp hv
  rw [List.eq_of_mem_replicate hv]
  exact (List.of_mem_zip he).1

/-- What is recorded of a pool that can be added up does not depend on its order. -/
private theorem record_perm {kept kept' : List Value} (h : kept.Perm kept')
    (addable : Addable kept) (success? : Option Condition) (t : Tallies) (w : Nat) :
    t.record success? kept w = t.record success? kept' w := by
  have sum : Value.sum kept = Value.sum kept' := by
    rw [addable.sum_eq, (addable.subperm h.symm.subperm).sum_eq, h.sum_eq]
  unfold Tallies.record
  rw [sum]
  simp only [h.countP_eq]

/-- Pools of which the same is left are tallied alike. -/
private theorem pooled_select (h : spec.SelectsAlike keep? drop?) (unwrapped : spec.Unwrapped)
    {numbers : List Value} (hn : spec.faces.numbers? = some numbers) (limits : Limits) :
    pooled (spec.select keep? drop?) limits (single spec numbers) =
      pooled spec limits (single spec numbers) := by
  unfold pooled
  simp only [Pools.fold_eq_foldl]
  apply if_congr Iff.rfl rfl
  apply congrArg Except.ok
  apply List.foldl_ext
  intro t counts hc
  obtain ⟨faces, dice⟩ := Pools.mem_all hc
  have length := (length_expand faces).trans dice
  have addable := unwrapped.addable_of_mem hn length fun v hv ↦
    Tally.mem_keys_ofList.mp (mem_of_mem_expand hv)
  have kept := addable.tail.subperm (spec.modifiers.filterPool_subperm _)
  exact (record_perm (h _ length) kept _ t _).symm

/-- Pools of which the same is left are analysed alike. -/
private theorem exact_select (h : spec.SelectsAlike keep? drop?) (unwrapped : spec.Unwrapped)
    (selects : (spec.select keep? drop?).modifiers.selects = spec.modifiers.selects)
    (limits : Limits) : exact (spec.select keep? drop?) limits = exact spec limits := by
  have same : (spec.select keep? drop?).faces.numbers? = spec.faces.numbers? := rfl
  unfold exact
  rw [same]
  cases hn : spec.faces.numbers? with
  | none => rfl
  | some numbers =>
    simp only [selects,
      show single (spec.select keep? drop?) numbers = single spec numbers from rfl,
      pooled_select h unwrapped hn]
    rfl

end Analysis

/-- Whether two scored rolls are the same but for their names and the order of the values that
count, and total the same if these can be added up with the adjustment in any order. -/
structure Scored.Alike (adjustment : Int) (s s' : Scored) : Prop where
  natural : s.natural = s'.natural
  modified : s.modified.Perm s'.modified
  total : Addable ((adjustment : Value) :: s.modified.filterMap Face.number?) → s.total = s'.total
  success : s.success? = s'.success?
  fail : s.fail? = s'.fail?
  naturalSuccess : s.naturalSuccess? = s'.naturalSuccess?
  naturalFail : s.naturalFail? = s'.naturalFail?
  pass : Addable ((adjustment : Value) :: s.modified.filterMap Face.number?) → s.pass? = s'.pass?

namespace Rolling

variable {σ : Type} [Roller σ]

/-- Outcomes that count the same values are scored alike, whatever is kept and dropped. -/
private theorem alike_of_outcomes {o o' : Outcome} (natural : o.natural = o'.natural)
    (modified : o.modified.Perm o'.modified) (name name' : String) :
    (o.score name spec).Alike spec.modifiers.adjustment
      (o'.score name' (spec.select keep? drop?)) := by
  have numbers := modified.filterMap Face.number?
  have total (addable : Addable ((spec.modifiers.adjustment : Value) ::
      o.modified.filterMap Face.number?)) : o.total spec = o'.total (spec.select keep? drop?) := by
    have reordered := addable.subperm (numbers.symm.cons _).subperm
    unfold Outcome.total
    rw [addable.sum_plus_eq, numbers.sum_eq, ← reordered.sum_plus_eq]
    rfl
  have matching : Outcome.matching o.modified = Outcome.matching o'.modified := by
    funext c
    exact numbers.countP_eq c.holds
  refine ⟨natural, modified, total, ?_, ?_, ?_, ?_, ?_⟩
  · exact congrArg (spec.modifiers.success?.map ·) matching
  · exact congrArg (spec.modifiers.fail?.map ·) matching
  · exact congrArg (fun faces ↦ spec.modifiers.naturalSuccess?.map (Outcome.matching faces)) natural
  · exact congrArg (fun faces ↦ spec.modifiers.naturalFail?.map (Outcome.matching faces)) natural
  · intro addable
    exact congrArg (fun t ↦ spec.modifiers.totalCheck?.map fun c ↦ c.holds t) (total addable)

/-- Whether two runs fail alike, or end with scored rolls that are alike, in the same context. -/
def EndAlike (adjustment : Int) (r r' : Except Error Scored × Context σ) : Prop :=
  (∃ s s' c', r = (.ok s, c') ∧ r' = (.ok s', c') ∧ s.Alike adjustment s') ∨
    ∃ e c', r = (.error e, c') ∧ r' = (.error e, c')

/-- Dice that show labels are drawn without a look at what is kept or dropped. -/
private theorem evaluate_select_of_labels (hn : spec.isNumeric = false) :
    (evaluate (spec.select keep? drop?) : Rolling σ Outcome) = evaluate spec := by
  have labels : (spec.select keep? drop?).isNumeric = false := hn
  unfold evaluate
  rw [hn, labels]
  rfl

/-- Without explosions, rolls of pools of which the same is left are alike. -/
private theorem score_select (h : spec.SelectsAlike keep? drop?)
    (still : spec.modifiers.explode? = none) (name name' : String) (c : Context σ) :
    EndAlike spec.modifiers.adjustment ((score name spec).run c)
      ((score name' (spec.select keep? drop?)).run c) := by
  unfold score
  cases hn : spec.isNumeric with
  | false =>
    rw [run_bind, run_bind, evaluate_select_of_labels hn]
    split
    · next o c' _ => exact .inl ⟨_, _, c', rfl, rfl, alike_of_outcomes rfl (.refl _) name name'⟩
    · next e c' _ => exact .inr ⟨e, c', rfl, rfl⟩
  | true =>
    have like := (spec.rollsLike_select keep? drop?).sameDice
    rw [run_bind, run_bind]
    obtain ⟨e, c', failed⟩ | ⟨rows, c', length, falls⟩ := evaluate_cases hn c
    · rw [failed, run_evaluate_of_error like hn failed]
      exact .inr ⟨e, c', rfl, rfl⟩
    · rw [run_evaluate_of_falls (.refl spec) hn length falls,
        run_evaluate_of_falls like hn length falls]
      have positions := (spec.rollsLike_select keep? drop?).positions
      have single : ∀ x ∈ spec.modifiers.explode?, x.compound = true := by
        rw [still]
        nofun
      have kept := h (spec.positions rows).modified
        ((Spec.length_positions single falls.ended).trans length)
      refine .inl ⟨_, _, c', rfl, rfl, alike_of_outcomes ?_ ?_ name name'⟩
      · rw [Spec.outcome, positions]
        rfl
      · rw [Spec.outcome, Spec.outcome, ← positions]
        exact kept.map Face.number

end Rolling

/-- A specification that neither keeps nor drops dice is analysed alike, under all limits, whether
it keeps a number of dice at one end or drops all others at the other end, if no roll of it wraps
around. Without explosions it is also rolled and scored alike; both rolls total the same if the
values that count can be added up in any order. -/
theorem keep_drop_dual (spec : Spec) (hk : spec.modifiers.keep? = none)
    (hd : spec.modifiers.drop? = none) (layer : Layer) (k : Nat) :
    (spec.Unwrapped → ∀ limits, Analysis.exact (spec.insert (.keep ⟨layer, k⟩)) limits =
      Analysis.exact (spec.insert (.drop ⟨layer.opposite, spec.count - k⟩)) limits) ∧
    (spec.modifiers.explode? = none → ∀ (σ : Type) [Roller σ] (name name' : String)
      (c : Context σ), Rolling.EndAlike spec.modifiers.adjustment
        ((Rolling.score name (spec.insert (.keep ⟨layer, k⟩))).run c)
        ((Rolling.score name' (spec.insert (.drop ⟨layer.opposite, spec.count - k⟩))).run c)) := by
  have alike := spec.selectsAlike_keep hd layer k
  rw [spec.insert_drop_eq hk _ ⟨layer, k⟩]
  constructor
  · intro unwrapped limits
    have kept : (spec.insert (.keep ⟨layer, k⟩)).Unwrapped := ⟨unwrapped.boosted, unwrapped.addable⟩
    exact (Analysis.exact_select alike kept rfl limits).symm
  · intro still σ _ name name' c
    exact Rolling.score_select alike still name name' c

private def threeDice : Spec where
  count := 3
  faces := .cube
  modifiers := { adjust? := some 0, success? := some ⟨.greaterEqual, 5⟩ }

/-- Three dice of which the two highest are kept are analysed as if the lowest were dropped; if they
fall on one, three and five, both rolls are alike, and total eight. -/
theorem keep_drop_dual_twoOfThree :
    (∀ limits, Analysis.exact (threeDice.insert (.keep ⟨.high, 2⟩)) limits =
      Analysis.exact (threeDice.insert (.drop ⟨.low, 1⟩)) limits) ∧
    ∃ s s', Rolling.Yields "3d6kh2" (threeDice.insert (.keep ⟨.high, 2⟩)) {} [1, 3, 5] s ∧
      Rolling.Yields "3d6dl1" (threeDice.insert (.drop ⟨.low, 1⟩)) {} [1, 3, 5] s' ∧
      s.natural = [.number 1, .number 3, .number 5] ∧ s.total = 8 ∧ s'.total = 8 ∧
      s.Alike 0 s' := by
  obtain ⟨analyses, rolls⟩ := keep_drop_dual threeDice rfl rfl .high 2
  have unwrapped : threeDice.Unwrapped := .of_light (d := 1) (w := 6) rfl (by decide +kernel)
    (by decide +kernel) (by decide) (by decide)
  have boosted : [1, 3, 5].map threeDice.boosted = [1, 3, 5] := by decide +kernel
  have sorted : Layer.high.sorted ([1, 3, 5].map threeDice.boosted) = [5, 3, 1] :=
    boosted ▸ Layer.sorted_eq (by decide +kernel) (by decide)
  have kept : (threeDice.insert (.keep ⟨.high, 2⟩)).kept [1, 3, 5] = [5, 3] :=
    congrArg (List.take 2) sorted
  obtain ⟨s, yields⟩ : ∃ s, Rolling.Yields "3d6kh2" (threeDice.insert (.keep ⟨.high, 2⟩)) {}
      [1, 3, 5] s := ⟨_, (Rolling.yields_iff ⟨rfl, rfl⟩ rfl _ _ rfl (by decide) _).mpr rfl⟩
  have scored := (Rolling.yields_iff ⟨rfl, rfl⟩ rfl _ _ rfl (by decide) _).mp yields
  rw [kept] at scored
  have addable : Addable (((0 : Int) : Value) :: ([5, 3].map Face.number).filterMap Face.number?) :=
    ⟨1, 8, by decide +kernel, by decide, by decide⟩
  have total : s.total = 8 := by
    rw [← scored, Outcome.score, Outcome.total_numbers rfl]
    decide +kernel
  obtain ⟨t, s', c₁, ends, ends', alike⟩ | ⟨e, c₁, ends, _⟩ :=
    rolls rfl Script "3d6kh2" "3d6dl1" (Context.new {} (Script.mk [1, 3, 5]))
  · cases yields.symm.trans ends
    have same : s'.total = 8 := by
      rw [← alike.total (scored ▸ addable), total]
    exact ⟨analyses unwrapped, s, s', yields, ends', scored ▸ by decide +kernel, total, same, alike⟩
  · exact nomatch yields.symm.trans ends

private def fiveHalves : Spec where
  count := 5
  faces := .list [.number (-9223372036854775808), .number 1] (by decide +kernel)
  modifiers :=
    { boost? := some ⟨.divide, 2⟩, adjust? := some 0, success? := some ⟨.greaterEqual, 1⟩ }

/-- Five halves of the least integer or of one, all of which count: added up from the highest or
from the lowest on they wrap around to different totals. -/
theorem not_forall_total_keep_eq_drop :
    ∃ s s',
      Expression.parse "5d{-9223372036854775808,1}/2" = .ok fiveHalves ∧
      Expression.parse "5d{-9223372036854775808,1}/2kh5" =
        .ok (fiveHalves.insert (.keep ⟨.high, 5⟩)) ∧
      Expression.parse "5d{-9223372036854775808,1}/2dl0" =
        .ok (fiveHalves.insert (.drop ⟨.low, 0⟩)) ∧
      Rolling.Yields "keep" (fiveHalves.insert (.keep ⟨.high, 5⟩)) {} [1, 2, 1, 2, 1] s ∧
      Rolling.Yields "drop" (fiveHalves.insert (.drop ⟨.low, 0⟩)) {} [1, 2, 1, 2, 1] s' ∧
      s.total = 4611686018427387905 ∧ s'.total = -4611686018427387903 := by
  have boosted : [1, 2, 1, 2, 1].map fiveHalves.boosted =
      [-4611686018427387904, 1 / 2, -4611686018427387904, 1 / 2, -4611686018427387904] := by
    decide +kernel
  have high : Layer.high.sorted ([1, 2, 1, 2, 1].map fiveHalves.boosted) =
      [1 / 2, 1 / 2, -4611686018427387904, -4611686018427387904, -4611686018427387904] :=
    boosted ▸ Layer.sorted_eq (by decide +kernel) (by decide +kernel)
  have low : Layer.low.sorted ([1, 2, 1, 2, 1].map fiveHalves.boosted) =
      [-4611686018427387904, -4611686018427387904, -4611686018427387904, 1 / 2, 1 / 2] :=
    boosted ▸ Layer.sorted_eq (by decide +kernel) (by decide +kernel)
  refine ⟨_, _, by decide +kernel, by decide +kernel, by decide +kernel,
    (Rolling.yields_iff ⟨rfl, rfl⟩ rfl "keep" {} rfl (by decide) _).mpr rfl,
    (Rolling.yields_iff ⟨rfl, rfl⟩ rfl "drop" {} rfl (by decide) _).mpr rfl, ?_, ?_⟩
  · have kept : (fiveHalves.insert (.keep ⟨.high, 5⟩)).kept [1, 2, 1, 2, 1] =
      [1 / 2, 1 / 2, -4611686018427387904, -4611686018427387904, -4611686018427387904] :=
      congrArg (List.take 5) high
    rw [Outcome.score, Outcome.total_numbers rfl, kept]
    decide +kernel
  · have kept : (fiveHalves.insert (.drop ⟨.low, 0⟩)).kept [1, 2, 1, 2, 1] =
      [-4611686018427387904, -4611686018427387904, -4611686018427387904, 1 / 2, 1 / 2] :=
      congrArg (List.drop 0) low
    rw [Outcome.score, Outcome.total_numbers rfl, kept]
    decide +kernel

end DicePool
