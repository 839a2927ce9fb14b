import DicePool.Proofs.Text.Line
import DicePool.Session

/-!
# Answers on one line

Whatever a line of a session asks for, its answer has no line breaks of its own: reports are JSON
values whose strings escape them, and messages quote a text only with its line breaks escaped. So a
session prints one line for each line that is not blank.
-/

namespace DicePool

open Text

/-- What a kind of tokens is called is on one line. -/
@[simp] theorem TokenKind.oneLine_text (k : TokenKind) : OneLine k.text.toList := by
  cases k <;> decide +kernel

namespace ParseCause

/-- Alternatives are on one line. -/
theorem oneLine_alternatives (kinds : List TokenKind) : OneLine (alternatives kinds).toList := by
  have names : ∀ s ∈ kinds.map TokenKind.text, OneLine s.toList := by simp
  unfold alternatives
  generalize kinds.map TokenKind.text = texts at names
  split
  · decide
  · exact names _ (by simp)
  · simp only [String.toList_append, oneLine_append]
    exact ⟨⟨names _ (by simp), by decide⟩, names _ (by simp)⟩
  · simp only [String.toList_append, oneLine_append, String.toList_join, List.flatMap_map]
    refine ⟨⟨oneLine_flatMap fun s hs ↦ ?_, by decide⟩, ?_⟩
    · exact oneLine_append.mpr ⟨names s (List.dropLast_subset _ hs), by decide⟩
    · cases last : texts.getLast? with
      | none => decide
      | some s => exact names s (List.mem_of_getLast? last)

/-- What was expected is on one line. -/
theorem oneLine_expectation (expected : List TokenKind) :
    OneLine (expectation expected).toList := by
  unfold expectation
  split
  · decide
  · simp only [String.toList_append, oneLine_append, oneLine_alternatives]
    decide

/-- The sentence for a cause is on one line. -/
theorem oneLine_message (cause : ParseCause) : OneLine cause.message.toList := by
  unfold message
  split <;>
    try simp only [String.toList_append, oneLine_append, TokenKind.oneLine_text,
      oneLine_expectation, Numeral.toList_ofNat, Numeral.oneLine_digits]
  all_goals decide +kernel

end ParseCause

/-- The message of an error of reading is on one line, whatever text it quotes. -/
theorem ParseError.oneLine_message (e : ParseError) : OneLine e.message.toList := by
  unfold message
  simp only [String.toList_append, oneLine_append, Numeral.toList_ofNat, Numeral.oneLine_digits,
    oneLine_quoted, e.cause.oneLine_message]
  decide +kernel

/-- The message of an error is on one line. -/
theorem Error.oneLine_message (e : Error) : OneLine e.message.toList := by
  have kinds : ∀ k : ModifierKind, OneLine k.text.toList := by
    intro k
    cases k <;> decide
  have names : ∀ k : FaceKind, OneLine k.name.toList := by
    intro k
    cases k <;> decide
  unfold message
  split <;>
    try simp only [String.toList_append, oneLine_append, Numeral.toList_ofNat,
      Numeral.oneLine_digits, kinds, names, ParseError.oneLine_message]
  all_goals decide +kernel

open Json

/-- A double is a number on one line, or null. -/
theorem Double.plain_json (d : Double) : d.json.Plain := by
  unfold json
  cases h : reportLayout.text? d with
  | none => exact .null
  | some s => exact .number (NumberLayout.oneLine_text? (by decide) h)

/-- A list of plain values is plain. -/
theorem Json.plain_ofList {α : Type} {f : α → Json} (h : ∀ a, (f a).Plain) (items : List α) :
    (ofList f items).Plain := by
  refine .array fun item hi ↦ ?_
  obtain ⟨a, _, rfl⟩ := List.mem_map.mp hi
  exact h a

private theorem plain_map {α : Type} {f : α → String × Json} (h : ∀ a, (f a).2.Plain)
    (items : List α) : ∀ field ∈ items.map f, field.2.Plain := by
  intro field hf
  obtain ⟨a, _, rfl⟩ := List.mem_map.mp hf
  exact h a

/-- A field that may be left out is plain if its values are. -/
theorem plain_optionalField {α : Type} (name : String) {f : α → Json} (a? : Option α)
    (h : ∀ a, (f a).Plain) : ∀ field ∈ optionalField name f a?, field.2.Plain :=
  plain_map h a?.toList

/-- The report on a distribution holds strings only. -/
theorem Distribution.plain_json {K : Type} (name : K → String) (d : Distribution K) :
    (d.json name).Plain :=
  .object (plain_map (fun _ ↦ .string _) d.outcomes)

/-- The fields of a report on statistics are plain. -/
theorem Statistics.plain_fields (s : Statistics) : ∀ f ∈ s.fields, f.2.Plain := by
  have percentiles : (Json.object (s.percentiles.map fun p ↦
      (Numeral.ofNat p.1, Value.json p.2))).Plain :=
    .object (plain_map (fun _ ↦ .string _) s.percentiles)
  simp only [fields, List.forall_mem_cons]
  exact ⟨s.roundedMean.plain_json, s.deviation.plain_json, .string _, .string _,
    plain_ofList (fun _ ↦ .string _) _, .string _, percentiles, by simp⟩

/-- The report on an analysis is plain. -/
theorem Analysis.plain_json (a : Analysis) : a.json.Plain := by
  have samples (n : Nat) : (Json.ofNat n).Plain := .number (by simp)
  refine .object ?_
  simp only [List.forall_mem_append, List.forall_mem_singleton]
  exact ⟨⟨⟨⟨⟨a.distribution.plain_json _, a.statistics.plain_fields⟩,
    plain_optionalField _ _ fun d ↦ d.plain_json _⟩,
    plain_optionalField _ _ fun _ ↦ .string _⟩, .string _⟩, plain_optionalField _ _ samples⟩

/-- The report on a scored roll is plain. -/
theorem Scored.plain_json (s : Scored) : s.json.Plain := by
  have faces (fs : List Face) : (Json.ofList Face.json fs).Plain :=
    plain_ofList (fun _ ↦ .string _) fs
  have counts (name : String) (n? : Option Nat) := plain_optionalField name n? fun n ↦
    (.string _ : (countJson n).Plain)
  refine .object ?_
  simp only [List.forall_mem_append, List.forall_mem_cons]
  exact ⟨⟨⟨⟨⟨⟨.string _, faces _, faces _, .string _, by simp⟩, counts _ _⟩, counts _ _⟩,
    counts _ _⟩, counts _ _⟩, plain_optionalField _ _ fun _ ↦ .string _⟩

/-- What comes of a throw is told on one line. -/
theorem Throw.oneLine_text (r : Except Error Scored) : OneLine (ofResult r).text.toList := by
  cases r with
  | ok s =>
    rw [ofResult, text, render, String.toList_ofList]
    exact s.plain_json.oneLine_write
  | error e =>
    rw [ofResult, text, String.toList_append, oneLine_append]
    exact ⟨by decide, e.oneLine_message⟩

namespace Session

/-- What comes of an analysis is told on one line. -/
theorem oneLine_analysisText (r : Except Error Analysis) : OneLine (analysisText r).toList := by
  cases r with
  | ok a =>
    rw [analysisText, render, String.toList_ofList]
    exact a.plain_json.oneLine_write
  | error e =>
    rw [analysisText, String.toList_append, oneLine_append]
    exact ⟨by decide, e.oneLine_message⟩

variable {σ : Type} [Roller σ]

/-- Whether a line is a text of blank characters, which has no answer. -/
def isBlankLine (line : ByteArray) : Bool :=
  (String.fromUTF8? line).any fun s ↦ Text.trim s.toList = []

/-- The answer to a line that is not blank is on one line. -/
theorem oneLine_respond (o : Options) (line : List Char) (c : Context σ) :
    OneLine (respond o line c).1.toList := by
  unfold respond
  split
  · exact oneLine_analysisText _
  · exact oneLine_analysisText _
  · exact Throw.oneLine_text _

/-- Blank lines have no answer, all others one on one line. -/
theorem answer_cases (o : Options) (line : ByteArray) (c : Context σ) :
    isBlankLine line = true ∧ (answer o line c).1 = none ∨
      isBlankLine line = false ∧ ∃ s, (answer o line c).1 = some s ∧ OneLine s.toList := by
  unfold isBlankLine answer
  cases String.fromUTF8? line with
  | none => exact .inr ⟨rfl, _, rfl, by decide +kernel⟩
  | some s =>
    simp only [Option.any_some]
    cases trimmed : Text.trim s.toList with
    | nil => exact .inl ⟨rfl, rfl⟩
    | cons first rest => exact .inr ⟨rfl, _, rfl, oneLine_respond o _ c⟩

/-- A session prints a line break for each line that is not blank, and no carriage returns. -/
theorem transcriptOf_lines (o : Options) (ls : List (List UInt8)) (c : Context σ) :
    (transcriptOf o ls c).toList.count '\n' =
        ls.countP (fun l ↦ !isBlankLine (ByteArray.mk l.toArray)) ∧
      '\r' ∉ (transcriptOf o ls c).toList := by
  induction ls generalizing c with
  | nil =>
    rw [transcriptOf]
    decide
  | cons l ls ih =>
    obtain ⟨breaks, returns⟩ := ih (answer o (ByteArray.mk l.toArray) c).2
    have start : prompt.toList.count '\n' = 0 ∧ '\r' ∉ prompt.toList := by decide
    simp only [transcriptOf, String.toList_append, List.count_append, List.mem_append, not_or,
      List.countP_cons, breaks, start]
    rcases answer_cases o (ByteArray.mk l.toArray) c with ⟨blank, none⟩ | ⟨full, s, some, line⟩
    · simp [blank, none, returns]
    · have feeds : s.toList.count '\n' = 0 := List.count_eq_zero.mpr fun hc ↦ (line _ hc).1 rfl
      have carriages : '\r' ∉ s.toList := fun hc ↦ (line _ hc).2 rfl
      simp [full, some, feeds, carriages, returns, Nat.add_comm]

/-- Every answer is one line: a throw, an exact and a sampled analysis of whatever text, with
whatever limits, samples and rolls, are told without line feeds and carriage returns. So each line
of an input has no answer if it is blank, else one on one line, and a session prints as many lines
as its input has lines that are not blank. -/
theorem answers_one_line (o : Options) (c : Context σ) (text : String) (limits : Limits)
    (samples : Nat) (line : List Char) (bytes : ByteArray) (input : List UInt8) (source : σ) :
    OneLine (Throw.run text c).1.text.toList ∧
      OneLine (analysisText (Analysis.ofExpression text limits)).toList ∧
      OneLine (analysisText ((Analysis.monteCarlo text samples).run c).1).toList ∧
      OneLine (respond o line c).1.toList ∧
      (isBlankLine bytes = true ∧ (answer o bytes c).1 = none ∨
        isBlankLine bytes = false ∧ ∃ s, (answer o bytes c).1 = some s ∧ OneLine s.toList) ∧
      (transcript o input source).toList.count '\n' =
        (lines input).countP (fun l ↦ !isBlankLine (ByteArray.mk l.toArray)) ∧
      '\r' ∉ (transcript o input source).toList :=
  ⟨Throw.oneLine_text _, oneLine_analysisText _, oneLine_analysisText _, oneLine_respond o line c,
    answer_cases o bytes c, transcriptOf_lines o (lines input) _⟩

end Session

end DicePool
