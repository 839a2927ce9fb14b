import DicePool.Proofs.Division
import DicePool.Proofs.Equation.Terms
import DicePool.Proofs.Expression.Bounds
import DicePool.Proofs.Roll.Nested

/-!
# What is read is well-formed

However a specification is read (from a text as it is, from one whose nested terms have been rolled,
or from the inside of a longer text), its counts, faces and modifiers are within the limits, it has
the modifiers that its faces ask for, and neither rolling nor analysing it divides by zero.
-/

namespace DicePool

namespace Spec

/-- Whether a specification is within the limits and has the modifiers that its faces ask for. -/
structure WellFormed (s : Spec) : Prop where
  count : 1 ≤ s.count ∧ s.count ≤ maxDice
  faces : s.faces.Written
  kinds : ∀ k, ∀ m ∈ s.modifiers.get? k, m.kind = k
  boost : s.isNumeric = true → ∃ b, s.modifiers.boost? = some b ∧
    0 ≤ b.magnitude ∧ b.magnitude ≤ maxLiteral ∧ b.Total
  adjust : ∃ a, s.modifiers.adjust? = some a ∧ a.natAbs ≤ maxLiteral
  success : s.isNumeric = true → ∃ c, s.modifiers.success? = some c
  thresholds : ∀ k, ∀ m ∈ s.modifiers.get? k, ∀ c ∈ m.condition?, Face.Listable c.threshold
  labelled : s.isNumeric = false → ∃ a, s.modifiers = { adjust? := some a }

/-- Whether the magnitudes of all faces and thresholds are bounded. -/
structure Small (s : Spec) : Prop where
  faces : s.faces.Small
  thresholds : ∀ k, ∀ m ∈ s.modifiers.get? k, ∀ c ∈ m.condition?, c.threshold.natAbs ≤ maxLiteral

/-- Whether a specification is well-formed, with bounded faces and thresholds unless the least
integer is a face, and neither rolling nor analysing it divides by zero. -/
structure Sound (s : Spec) : Prop where
  wellFormed : s.WellFormed
  small : s.faces.Literal → s.Small
  rolls : ∀ (σ : Type) [Roller σ] (trap : Rolling σ Value),
    Rolling.evaluateOr trap s = Rolling.evaluate s
  analyses : ∀ (trap : Except Error Value) (limits : Limits),
    Analysis.exactOr trap s limits = Analysis.exact s limits

/-- The limits bound what a specification has, whatever was rolled to read it. -/
theorem wellFormed_of_bounded {s : Spec} (h : Bounded { s with substitutions := [] }) :
    s.WellFormed where
  count := h.count
  faces := h.faces
  kinds _ _ hm := Modifiers.kind_of_get? hm
  thresholds k m hm c hc := (h.modifiers k m hm).condition hc
  labelled := h.labelled
  boost hn := by
    obtain ⟨b, hb⟩ := Option.isSome_iff_exists.mp (h.numeric hn).1
    have hm : s.modifiers.get? .boost = some (.boost b) := congrArg (Option.map Modifier.boost) hb
    obtain ⟨least, most, divisor⟩ := h.modifiers .boost _ hm
    exact ⟨b, hb, least, most, fun zero ↦ divisor zero.1 zero.2⟩
  adjust := by
    obtain ⟨a, ha⟩ := h.exists_adjust
    have hm : s.modifiers.get? .adjust = some (.adjust a) :=
      congrArg (Option.map Modifier.adjust) ha
    exact ⟨a, ha, h.modifiers .adjust _ hm⟩
  success hn := Option.isSome_iff_exists.mp (h.numeric hn).2.2

/-- Thresholds are as bounded as the faces: only the largest face can stand for a negative one. -/
private theorem WellFormed.small {s : Spec} (h : s.WellFormed) (defaulted : s.Defaulted)
    (literal : s.faces.Literal) : s.Small where
  faces := h.faces.small literal
  thresholds k m hm c hc := by
    obtain small | least := Face.listable_iff.mp (h.thresholds k m hm c hc)
    · exact small
    · have listed : m ∈ s.modifiers.toList := by
        rw [Modifiers.mem_toList_iff, Modifiers.kind_of_get? hm]
        exact hm
      have default := (defaulted m listed c hc (by omega)).1
      cases largest : s.faces.max? with
      | none =>
        rw [largest] at default
        exact default ▸ Nat.zero_le maxLiteral
      | some n =>
        rw [largest] at default
        exact default ▸ FaceSet.natAbs_max?_le (h.faces.small literal) n largest

/-- What is read from a text, with or without substitutions, is sound. -/
private theorem sound_of_parse {text : String} {s : Spec}
    (h : Expression.parse text = .ok { s with substitutions := [] }) : s.Sound := by
  have wellFormed := wellFormed_of_bounded (bounded_of_parse h)
  have defaulted := defaulted_of_parse h
  have total : s.isNumeric = true → s.modifiers.boost.Total := by
    intro hn
    obtain ⟨b, hb, _, _, total⟩ := wellFormed.boost hn
    rwa [Modifiers.boost, hb, Option.getD_some]
  exact ⟨wellFormed, wellFormed.small defaulted,
    fun σ _ trap ↦ Rolling.evaluateOr_eq trap total,
    fun trap limits ↦ Analysis.exactOr_eq trap total wellFormed.count.1 limits⟩

/-- What is read from a whole text has no substitutions. -/
private theorem sound_of_literal {text : String} {s : Spec} (h : Expression.parse text = .ok s) :
    s.Sound := by
  refine sound_of_parse (h.trans ?_)
  rw [← (bounded_of_parse h).substitutions]

/-- However a specification is read from a text, it is well-formed, with bounded faces and
thresholds unless the least integer is a face, and neither rolling nor analysing it divides by zero.
-/
theorem sound_of_read (text : String) :
    (∀ s, Expression.parse text = .ok s → s.Sound) ∧
    (∀ s, Expression.parseLiteral text = .ok s → s.Sound) ∧
    (∀ (σ : Type) [Roller σ] (c c' : Context σ) (s : Spec),
      (Rolling.parse text).run c = (.ok s, c') → s.Sound) ∧
    ∀ found, Equation.terms text = .ok found → ∀ t ∈ found, t.spec.Sound := by
  refine ⟨fun s h ↦ sound_of_literal h, fun s h ↦ ?_, fun σ _ c c' s h ↦ ?_,
    fun found h t ht ↦ ?_⟩
  · unfold Expression.parseLiteral at h
    split at h
    · contradiction
    · exact sound_of_literal h
  · obtain ⟨_, _, _, _, read⟩ := Rolling.ensures_parse text c s c' h
    exact sound_of_parse read
  · exact sound_of_literal (Equation.maximal_of_terms h t ht).parse

private def halved : Spec where
  count := 2
  faces := .cube
  modifiers :=
    { boost? := some ⟨.divide, 2⟩, adjust? := some 0, success? := some ⟨.greaterEqual, 6⟩ }

/-- Dice that are halved are read and sound, and their faces and thresholds are bounded. -/
theorem sound_of_read_halved :
    Expression.parse "2d6/2" = .ok halved ∧ halved.Sound ∧ halved.Small := by
  have read : Expression.parse "2d6/2" = .ok halved := by decide +kernel
  have sound := (sound_of_read "2d6/2").1 halved read
  exact ⟨read, sound, sound.small trivial⟩

private def leastFace : Spec where
  count := 1
  faces := .least
  modifiers :=
    { boost? := some ⟨.add, 0⟩, adjust? := some 0,
      success? := some ⟨.greaterEqual, -9223372036854775808⟩ }

/-- The least integer is read as a face, and as the threshold of success: its magnitude wraps around
to the least integer, which is within every bound. -/
theorem not_forall_small_of_parse :
    Expression.parse "1d{-9223372036854775808}" = .ok leastFace ∧ ¬leastFace.Small := by
  refine ⟨by decide +kernel, fun small ↦ ?_⟩
  have bounded := small.thresholds .success _ rfl _ rfl
  contradiction

end Spec

end DicePool
