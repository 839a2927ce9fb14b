import DicePool.Proofs.Expression.Parse
import DicePool.Proofs.Face
import DicePool.Proofs.Face.Listed

/-!
# Bounds of what is read

The counts, faces and modifiers of an expression that is read stay within the limits of what can be
written, defaults included. Only defaults are negative thresholds.
-/

namespace DicePool

namespace Modifier

/-- The condition of a modifier that compares. -/
def condition? : Modifier → Option Condition
  | success c | fail c | naturalSuccess c | naturalFail c | totalCheck c => some c
  | explode e => some e.condition
  | reroll r => some r.condition
  | boost _ | adjust _ | keep _ | drop _ => none

/-- Whether the numbers of a modifier are within the limits. -/
def Bounded : Modifier → Prop
  | boost b =>
    0 ≤ b.magnitude ∧ b.magnitude ≤ maxLiteral ∧ (b.operator = .divide → b.magnitude ≠ 0)
  | adjust a => a.natAbs ≤ maxLiteral
  | keep s | drop s => s.count ≤ Expression.maxCount
  | m => ∀ c ∈ m.condition?, Face.Listable c.threshold

/-- The threshold of a modifier within the limits could be a face. -/
theorem Bounded.condition {m : Modifier} (h : m.Bounded) {c : Condition} (hc : c ∈ m.condition?) :
    Face.Listable c.threshold := by
  cases m with
  | boost | adjust | keep | drop => contradiction
  | _ => exact h c hc

end Modifier

namespace FaceSet

/-- Sides that are read can stand in an expression. -/
theorem written_of_sides {t : Token} {faces : FaceSet} (h : Expression.sides t = .ok faces) :
    faces.Written := by
  unfold Expression.sides at h
  split at h
  · split at h
    · contradiction
    · next small =>
      split at h
      · next made =>
        rw [Except.ok.injEq] at h
        unfold ofSides? at made
        split at made
        · rw [← h, ← Option.some.inj made]
          exact Nat.not_lt.mp small
        · contradiction
      · contradiction
  · split at h
    · split at h
      · next made =>
        rw [Except.ok.injEq] at h
        exact h ▸ written_of_ofText? made
      · contradiction
    · contradiction

private theorem foldl_max_mem (vs : List Value) (v : Value) :
    vs.foldl (fun a b ↦ if a < b then b else a) v ∈ v :: vs := by
  induction vs generalizing v with
  | nil => exact List.mem_singleton.mpr rfl
  | cons w vs ih =>
    rw [List.foldl_cons]
    split
    · exact List.mem_cons_of_mem _ (ih w)
    · rcases List.mem_cons.mp (ih v) with same | mem
      · rw [same]
        exact List.mem_cons_self
      · exact List.mem_cons_of_mem _ (List.mem_cons_of_mem _ mem)

private theorem number_mem_of_mapM {faces : List Face} {values : List Value}
    (h : faces.mapM Face.number? = some values) : ∀ v ∈ values, .number v ∈ faces := by
  induction faces generalizing values with
  | nil =>
    cases h
    simp
  | cons f faces ih =>
    simp only [List.mapM_cons, Option.bind_eq_bind, Option.bind_eq_some_iff] at h
    obtain ⟨v, hv, rest, hr, same⟩ := h
    cases same
    have first : f = .number v := by
      cases f with
      | number w => exact congrArg Face.number (Option.some.inj hv)
      | label s => contradiction
    exact List.forall_mem_cons.mpr
      ⟨first ▸ List.mem_cons_self, fun w hw ↦ List.mem_cons_of_mem _ (ih hr w hw)⟩

/-- The largest number of a list is one of its faces. -/
private theorem exists_mem_of_max? {faces : List Face}
    {valid : faces ≠ [] ∧ ∀ f ∈ faces, f.Narrow} {n : Int} (hn : n ∈ (list faces valid).max?) :
    ∃ v, .number v ∈ faces ∧ Value.truncate v = n := by
  simp only [max?, Option.bind_eq_bind, Option.mem_def, Option.bind_eq_some_iff] at hn
  obtain ⟨values, read, first, head, largest⟩ := hn
  obtain ⟨rest, rfl⟩ := List.head?_eq_some_iff.mp head
  rw [List.foldl_cons, if_neg Rat.lt_irrefl] at largest
  exact ⟨_, number_mem_of_mapM read _ (foldl_max_mem rest first), Option.some.inj largest⟩

/-- The largest face of a die that can stand in an expression can be listed. -/
theorem listable_max? {faces : FaceSet} (h : faces.Written) :
    ∀ n ∈ faces.max?, Face.Listable n := by
  intro n hn
  cases faces with
  | range sides valid =>
    have small : sides ≤ 100 := h
    rw [← Option.some.inj hn]
    exact Face.listable_of_le (small.trans (by decide))
  | list faces valid =>
    obtain ⟨v, hv, rfl⟩ := exists_mem_of_max? hn
    obtain ⟨k, rfl, listable⟩ := h _ hv
    simpa [Value.truncate] using listable

/-- The largest face is bounded if all are. -/
theorem natAbs_max?_le {faces : FaceSet} (h : faces.Small) :
    ∀ n ∈ faces.max?, n.natAbs ≤ maxLiteral := by
  intro n hn
  cases faces with
  | range sides valid =>
    have small : sides ≤ 100 := h
    rw [← Option.some.inj hn]
    exact small.trans (by decide)
  | list faces valid =>
    obtain ⟨v, hv, rfl⟩ := exists_mem_of_max? hn
    obtain ⟨k, rfl, small⟩ := h v hv
    simpa [Value.truncate] using small

end FaceSet

namespace Grammar

open Expression

/-- The omitted number of a method could be a face like the largest face. -/
private theorem listable_omitted {maxFace : Int} (h : Face.Listable maxFace) (k : TokenKind) :
    Face.Listable (omitted maxFace k) := by
  unfold omitted
  split
  · exact h
  · split <;> decide

/-- The modifier of a method with an allowed number is within the limits. -/
theorem Item.bounded_of_modifier? {maxFace : Int} (h : Face.Listable maxFace) {i : Item}
    (allowed : i.Allowed) {m : Modifier} (hm : i.modifier? maxFace = some m) : m.Bounded := by
  have threshold (hp : i.letters.kind ∉ pools) :
      Face.Listable (i.condition maxFace).threshold := by
    rw [Allowed, if_neg hp] at allowed
    unfold condition amount
    cases hn : i.amount? with
    | none => exact listable_omitted h _
    | some n => exact Face.listable_of_le (allowed.1 n hn)
  have count (layer : Layer) : (i.selection maxFace layer).count ≤ maxCount := Nat.min_le_right _ _
  unfold modifier? at hm
  split at hm
  case h_1 hk =>
    obtain rfl := Option.some.inj hm
    rw [Allowed, hk, if_neg (by decide)] at allowed
    obtain ⟨small, divisor⟩ := allowed
    have divides : (i.boost maxFace).operator = .divide ↔ ∃ o ∈ i.operator?, o.kind = .slash := by
      rw [← bind_arithmetic?_eq_divide, boost]
      cases i.operator?.bind fun o ↦ o.kind.arithmetic? <;> simp
    have magnitude : (i.boost maxFace).magnitude = i.amount?.elim 0 fun n ↦ n.number := by
      rw [boost, amount, hk]
      cases i.amount? <;> rfl
    rw [Modifier.Bounded, magnitude, divides]
    refine ⟨?_, ?_, fun slash ↦ ?_⟩
    · cases i.amount? <;> simp
    · cases hn : i.amount? with
      | none => exact Int.natCast_nonneg _
      | some n => exact Int.ofNat_le.mpr (small n hn)
    · obtain ⟨n, hn, ne⟩ := divisor rfl slash
      rw [Option.mem_def.mp hn]
      exact Int.natCast_ne_zero.mpr ne
  all_goals first
    | contradiction
    | (obtain rfl := Option.some.inj hm
       exact count _)
    | (next hk =>
        obtain rfl := Option.some.inj hm
        rintro _ ⟨⟩
        exact threshold (by rw [hk]; decide))

/-- The whole sum is one of the running sums. -/
theorem sum_mem_scanl (a : Int) (xs : List Int) : a + xs.sum ∈ xs.scanl (· + ·) a := by
  induction xs generalizing a with
  | nil => simp
  | cons x xs ih =>
    rw [List.scanl_cons, List.sum_cons, ← Int.add_assoc]
    exact List.mem_cons_of_mem _ (ih (a + x))

namespace Reading

variable {r : Reading} {maxFace : Int} {k : ModifierKind} {m : Modifier}

private theorem bounded_of_last? (h : Face.Listable maxFace)
    (allowed : ∀ i ∈ r.methods, i.Allowed) (hm : r.last? maxFace k = some m) : m.Bounded := by
  have mem := (List.mem_filter.mp (List.mem_of_getLast? hm)).1
  obtain ⟨i, hi, same⟩ := List.mem_filterMap.mp mem
  exact Item.bounded_of_modifier? h (allowed i hi) same

private theorem bounded_of_headBoost? (allowed : r.Allowed) (hm : r.headBoost? = some m) :
    m.Bounded := by
  obtain ⟨o, ho, rfl⟩ := Option.map_eq_some_iff.mp hm
  obtain ⟨small, divisor⟩ := allowed.boost o ho
  have slash : o.operator.kind.arithmetic?.getD .add = .divide → o.operator.kind = .slash := by
    cases o.operator.kind <;> simp [TokenKind.arithmetic?]
  exact ⟨Int.natCast_nonneg _, Int.ofNat_le.mpr small,
    fun divides ↦ Int.natCast_ne_zero.mpr (divisor (slash divides))⟩

private theorem bounded_of_evaluated? (h : Face.Listable maxFace) (allowed : r.Allowed)
    (hm : r.evaluated? maxFace = some m) : m.Bounded := by
  obtain ⟨e, he, rfl⟩ := Option.map_eq_some_iff.mp hm
  rintro _ ⟨⟩
  cases hn : e.amount? with
  | none => exact h
  | some n => exact Face.listable_of_le (allowed.evaluator e he n hn)

private theorem bounded_of_trailingCheck? (allowed : r.Allowed) (hm : r.trailingCheck? = some m) :
    m.Bounded := by
  obtain ⟨o, ho, rfl⟩ := Option.map_eq_some_iff.mp hm
  rintro _ ⟨⟩
  exact Face.listable_of_le (allowed.check o ho)

/-- What a reading with allowed numbers stands for is within the limits. -/
theorem bounded_of_meaning? (h : Face.Listable maxFace) (allowed : r.Allowed)
    (hm : r.meaning? maxFace k = some m) : m.Bounded := by
  have last (k : ModifierKind) (hm : r.last? maxFace k = some m) : m.Bounded :=
    bounded_of_last? h allowed.methods hm
  cases k with
  | boost =>
    rcases Option.or_eq_some_iff.mp hm with hm | ⟨_, hm⟩
    · rcases Option.or_eq_some_iff.mp hm with hm | ⟨_, hm⟩
      · exact last _ hm
      · exact bounded_of_headBoost? allowed hm
    · rw [← Option.some.inj hm]
      exact ⟨le_rfl, by decide, by decide⟩
  | adjust =>
    rw [← Option.some.inj hm]
    have total := allowed.sums _ (sum_mem_scanl 0 r.shifts)
    rwa [Int.zero_add] at total
  | success =>
    rcases Option.or_eq_some_iff.mp hm with hm | ⟨_, hm⟩
    · rcases Option.or_eq_some_iff.mp hm with hm | ⟨_, hm⟩
      · exact bounded_of_evaluated? h allowed hm
      · exact last _ hm
    · rw [← Option.some.inj hm]
      rintro _ ⟨⟩
      exact h
  | totalCheck =>
    rcases Option.or_eq_some_iff.mp hm with hm | ⟨_, hm⟩
    · exact bounded_of_trailingCheck? allowed hm
    · exact last _ hm
  | _ => exact last _ hm

/-- A reading with other faces than numbers stands for its adjustment alone. -/
theorem modifiers_of_labels (hr : r.WellFormed) {faces : FaceSet} (hn : faces.isNumeric = false) :
    (r.spec faces).modifiers = { adjust? := some r.shifts.sum } := by
  have adjust := adjust?_draftOf (faces.max?.getD 0) r.clauses (d := Draft.start) (a := 0) rfl
  rw [Int.zero_add, sum_shift_clauses (wellFormed_of_fits hr.methods)] at adjust
  rw [spec, Draft.finish, if_neg (by simp [hn]), adjust]

end Reading

end Grammar

/-- Whether a specification can be written: its numbers are within the limits, numeric faces have a
boost, an adjustment and a success condition, and other faces an adjustment alone. -/
structure Spec.Bounded (s : Spec) : Prop where
  count : 1 ≤ s.count ∧ s.count ≤ maxDice
  faces : s.faces.Written
  modifiers : ∀ k, ∀ m ∈ s.modifiers.get? k, m.Bounded
  numeric : s.isNumeric = true → s.modifiers.boost?.isSome = true ∧
    s.modifiers.adjust?.isSome = true ∧ s.modifiers.success?.isSome = true
  labelled : s.isNumeric = false → ∃ a, s.modifiers = { adjust? := some a }
  substitutions : s.substitutions = []

/-- A specification that can be written has an adjustment. -/
theorem Spec.Bounded.exists_adjust {s : Spec} (h : s.Bounded) :
    ∃ a, s.modifiers.adjust? = some a := by
  cases hn : s.isNumeric with
  | true => exact Option.isSome_iff_exists.mp (h.numeric hn).2.1
  | false =>
    obtain ⟨a, only⟩ := h.labelled hn
    exact ⟨a, congrArg Modifiers.adjust? only⟩

/-- What is read can be written. -/
theorem Spec.bounded_of_parse {text : String} {spec : Spec}
    (h : Expression.parse text = .ok spec) : spec.Bounded := by
  obtain ⟨r, hr⟩ := Grammar.Reading.exists_greedyReading (Grammar.sentence_of_parse h)
  obtain ⟨allowed, faces, hf, rfl⟩ := (Grammar.parse_eq_ok_iff hr).mp h
  have written := FaceSet.written_of_sides hf
  have maxFace : Face.Listable (faces.max?.getD 0) := by
    cases hm : faces.max? with
    | none => decide
    | some n => exact FaceSet.listable_max? written n hm
  have numeric (hn : faces.isNumeric = true) (k : ModifierKind) :=
    Grammar.Reading.get?_finish (Grammar.wellFormed_of_fits hr.1.methods) hn k
  have labelled (hn : faces.isNumeric = false) := r.modifiers_of_labels hr.1 hn
  refine ⟨allowed.count, written, fun k m hm ↦ ?_, fun hn ↦ ?_, fun hn ↦ ⟨_, labelled hn⟩, rfl⟩
  · cases hn : faces.isNumeric with
    | true =>
      exact Grammar.Reading.bounded_of_meaning? maxFace allowed ((numeric hn k).symm.trans hm)
    | false =>
      have total : (Modifier.adjust r.shifts.sum).Bounded :=
        Grammar.Reading.bounded_of_meaning? maxFace allowed (k := .adjust) rfl
      rw [labelled hn] at hm
      cases k with
      | adjust => exact Option.some.inj hm ▸ total
      | _ => contradiction
  · have isSome (k : ModifierKind) := congrArg Option.isSome (numeric hn k)
    have boost := isSome .boost
    have adjust := isSome .adjust
    have success := isSome .success
    simp only [Modifiers.get?, Option.isSome_map] at boost adjust success
    refine ⟨boost.trans ?_, adjust.trans rfl, success.trans ?_⟩ <;>
      simp [Grammar.Reading.meaning?]

/-- The kinds of modifiers whose omitted threshold is the largest face. -/
def highKinds : List ModifierKind := [.success, .explode, .naturalSuccess]

namespace Grammar

variable {maxFace : Int} {m : Modifier} {c : Condition}

/-- The number of a method is negative only where it is left out and is the largest face. -/
private theorem Item.amount_of_neg {i : Item} (h : i.amount maxFace < 0) :
    i.amount maxFace = maxFace ∧ i.letters.kind ∈ highLetters := by
  unfold amount at h ⊢
  cases hn : i.amount? with
  | some n =>
    rw [hn] at h
    exact absurd (Int.natCast_nonneg n.number) (Int.not_le.mpr h)
  | none =>
    rw [hn, Option.elim_none, omitted] at h
    rw [Option.elim_none, omitted]
    split at h
    · next high => exact ⟨if_pos high, high⟩
    · split at h <;> contradiction

/-- The threshold of a method is negative only where it is left out and is the largest face. -/
private theorem Item.negative_of_modifier? {i : Item} (hm : i.modifier? maxFace = some m)
    (hc : c ∈ m.condition?) (negative : c.threshold < 0) :
    c.threshold = maxFace ∧ m.kind ∈ highKinds := by
  unfold modifier? at hm
  split at hm
  all_goals first
    | contradiction
    | (obtain rfl := Option.some.inj hm
       contradiction)
    | (next hk =>
        obtain rfl := Option.some.inj hm
        obtain rfl := Option.some.inj hc
        obtain ⟨same, high⟩ := Item.amount_of_neg negative
        rw [hk] at high
        first
          | exact absurd high (by decide)
          | exact ⟨same, by simp [Modifier.kind, highKinds]⟩)

namespace Reading

variable {r : Reading} {k : ModifierKind}

/-- A threshold that a reading stands for is negative only where it is left out. -/
private theorem negative_of_meaning? (hm : r.meaning? maxFace k = some m) (hc : c ∈ m.condition?)
    (negative : c.threshold < 0) : c.threshold = maxFace ∧ m.kind ∈ highKinds := by
  have last (k : ModifierKind) (hm : r.last? maxFace k = some m) :
      c.threshold = maxFace ∧ m.kind ∈ highKinds := by
    have mem := (List.mem_filter.mp (List.mem_of_getLast? hm)).1
    obtain ⟨i, _, same⟩ := List.mem_filterMap.mp mem
    exact Item.negative_of_modifier? same hc negative
  cases k with
  | boost =>
    rcases Option.or_eq_some_iff.mp hm with hm | ⟨_, hm⟩
    · rcases Option.or_eq_some_iff.mp hm with hm | ⟨_, hm⟩
      · exact last _ hm
      · obtain ⟨o, _, rfl⟩ := Option.map_eq_some_iff.mp hm
        contradiction
    · obtain rfl := Option.some.inj hm
      contradiction
  | adjust =>
    obtain rfl := Option.some.inj hm
    contradiction
  | success =>
    rcases Option.or_eq_some_iff.mp hm with hm | ⟨_, hm⟩
    · rcases Option.or_eq_some_iff.mp hm with hm | ⟨_, hm⟩
      · obtain ⟨e, _, rfl⟩ := Option.map_eq_some_iff.mp hm
        obtain rfl := Option.some.inj hc
        refine ⟨?_, by simp [Modifier.kind, highKinds]⟩
        cases hn : e.amount? with
        | none => rfl
        | some n =>
          simp only [hn, Option.elim_some] at negative
          exact absurd (Int.natCast_nonneg n.number) (Int.not_le.mpr negative)
      · exact last _ hm
    · obtain rfl := Option.some.inj hm
      obtain rfl := Option.some.inj hc
      exact ⟨rfl, by simp [Modifier.kind, highKinds]⟩
  | totalCheck =>
    rcases Option.or_eq_some_iff.mp hm with hm | ⟨_, hm⟩
    · obtain ⟨o, _, rfl⟩ := Option.map_eq_some_iff.mp hm
      obtain rfl := Option.some.inj hc
      exact absurd (Int.natCast_nonneg o.amount.number) (Int.not_le.mpr negative)
    · exact last _ hm
  | _ => exact last _ hm

end Reading

end Grammar

/-- Whether every negative threshold of a specification is its largest face, in a modifier that
compares with this face where no number is written. -/
def Spec.Defaulted (s : Spec) : Prop :=
  ∀ m ∈ s.modifiers.toList, ∀ c ∈ m.condition?, c.threshold < 0 →
    c.threshold = s.faces.max?.getD 0 ∧ m.kind ∈ highKinds

/-- What is read has no other negative thresholds than the largest face. -/
theorem Spec.defaulted_of_parse {text : String} {spec : Spec}
    (h : Expression.parse text = .ok spec) : spec.Defaulted := by
  obtain ⟨r, hr⟩ := Grammar.Reading.exists_greedyReading (Grammar.sentence_of_parse h)
  obtain ⟨_, faces, _, rfl⟩ := (Grammar.parse_eq_ok_iff hr).mp h
  intro m hm c hc negative
  have found := Modifiers.mem_toList_iff.mp hm
  cases hn : faces.isNumeric with
  | true =>
    have meaning :=
      Grammar.Reading.get?_finish (Grammar.wellFormed_of_fits hr.1.methods) hn m.kind
    exact Grammar.Reading.negative_of_meaning? (meaning.symm.trans found) hc negative
  | false =>
    rw [r.modifiers_of_labels hr.1 hn] at found
    cases m <;> contradiction

end DicePool
