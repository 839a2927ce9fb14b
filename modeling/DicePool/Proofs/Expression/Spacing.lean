import DicePool.Proofs.Expression.Relabel
import DicePool.Proofs.Token.Tiling

/-!
# Spaces between tokens

More separators around the tokens of an expression leave its tokens as they are: what follows a
token then begins with no more digits, letters or symbols than before, so no token grows. And
nothing but the kinds and the texts of the tokens decides what a text stands for, or why it is
refused.
-/

namespace DicePool

namespace Token

variable {o : Nat} {s s' before before' : List Char} {t : Token} {ts : List Token}
  {runs : List (Nat × List Char)}

/-- Whether rows of separators stand beside ascending positions outside of the tokens. -/
structure Gaps (ts : List Token) (runs : List (Nat × List Char)) : Prop where
  separators : ∀ r ∈ runs, ∀ c ∈ r.2, c ∈ [' ', '\t', '\r', '\n']
  outside : ∀ r ∈ runs, ∀ t ∈ ts, r.1 ≤ t.span.start ∨ t.span.stop ≤ r.1
  ascending : runs.Pairwise fun r r' ↦ r.1 ≤ r'.1

/-- The edits that write texts at positions, over nothing. -/
def insertions (runs : List (Nat × List Char)) : List (Span × List Char) :=
  runs.map fun r ↦ (⟨r.1, r.1⟩, r.2)

/-- Without the first row the others stand as they do. -/
theorem Gaps.tail {r : Nat × List Char} (h : Gaps ts (r :: runs)) : Gaps ts runs :=
  ⟨fun r hr ↦ h.separators r (List.mem_cons_of_mem _ hr),
    fun r hr ↦ h.outside r (List.mem_cons_of_mem _ hr), (List.pairwise_cons.mp h.ascending).2⟩

/-- Outside of tokens is outside of those after the first. -/
theorem Gaps.later (h : Gaps (t :: ts) runs) : Gaps ts runs :=
  ⟨h.separators, fun r hr t ht ↦ h.outside r hr t (List.mem_cons_of_mem _ ht), h.ascending⟩

/-- A separator is one byte. -/
private theorem byteLength_separators (h : ∀ c ∈ before, isSeparator c = true) :
    Text.byteLength before = before.length := by
  induction before with
  | nil => rfl
  | cons c before ih =>
    rw [List.forall_mem_cons, isSeparator_iff] at h
    have one : [' ', '\t', '\r', '\n'].all (fun c ↦ c.utf8Size = 1) := by decide
    have size : c.utf8Size = 1 := of_decide_eq_true (List.all_eq_true.mp one c h.1)
    rw [Text.byteLength, size, ih h.2, List.length_cons, Nat.add_comm]

/-- Separators fall apart at each position. -/
private theorem exists_split (h : ∀ c ∈ before, isSeparator c = true) {n : Nat}
    (hn : n ≤ Text.byteLength before) :
    ∃ a b, before = a ++ b ∧ n = Text.byteLength a := by
  rw [byteLength_separators h] at hn
  refine ⟨before.take n, before.drop n, (List.take_append_drop n before).symm, ?_⟩
  rw [byteLength_separators fun c hc ↦ h c (List.mem_of_mem_take hc), List.length_take,
    Nat.min_eq_left hn]

/-- Whether a text has the given tokens, in whatever places, and begins with no more characters of
one class than `s` does. -/
structure Spread (ts : List Token) (s s' : List Char) : Prop where
  runs : Runs s s'
  lexemes : ∀ o, (scanFrom 0 o s').map lexeme = ts.map lexeme

namespace Spread

/-- Separators in front can be more, but for a first one where none is. -/
theorem separators (h : Spread ts s s') (blank : ∀ c ∈ before', isSeparator c = true)
    (kept : before' = [] → before = []) : Spread ts (before ++ s) (before' ++ s') := by
  refine ⟨?_, fun o ↦ by rw [scanFrom_separators blank, h.lexemes]⟩
  cases before' with
  | nil =>
    rw [kept rfl]
    exact h.runs
  | cons c before' =>
    refine Runs.of_head? _ fun d hd ↦ ?_
    obtain rfl : c = d := Option.some.inj hd
    exact (class_of_separator (blank c List.mem_cons_self)).2

/-- A recognized token stays in front. -/
theorem piece (h : Spread ts s s') (known : t.kind ≠ .unrecognized)
    (piece : Piece t.kind t.text s) : Spread (t :: ts) (t.text ++ s) (t.text ++ s') := by
  refine ⟨h.runs.append_left t.text, fun o ↦ ?_⟩
  rw [scanFrom_piece (piece.runs known h.runs), List.map_cons, List.map_cons, h.lexemes]
  rfl

/-- Separators alone have no tokens. -/
theorem nil (blank : ∀ c ∈ s', isSeparator c = true) : Spread [] s s' :=
  ⟨Runs.of_head? s fun _ hc ↦ (class_of_separator (blank _ (List.mem_of_mem_head? hc))).2,
    fun _ ↦ by rw [scanFrom_eq_nil_iff.mpr blank]⟩

/-- Rows behind a token leave it as it is. -/
private theorem of_behind (h : scanFrom 0 o s = t :: ts) (known : t.kind ≠ .unrecognized)
    (behind : ∀ r ∈ runs, t.span.stop ≤ r.1)
    (rest : ∀ s, scanFrom 0 t.span.stop s = ts →
      Spread ts s (Text.spliceFrom t.span.stop s (insertions runs))) :
    Spread (t :: ts) s (Text.spliceFrom o s (insertions runs)) := by
  obtain ⟨before, s, rfl, blank, piece, span, scanned⟩ := scanFrom_eq_cons.mp h
  have stop : t.span.stop = o + Text.byteLength (before ++ t.text) := by
    rw [span, Text.byteLength_append, Nat.add_assoc]
  have bounds : ∀ e ∈ (insertions runs).head?,
      o + Text.byteLength (before ++ t.text) ≤ e.1.start ∧ e.1.start ≤ e.1.stop := by
    intro e he
    obtain ⟨r, hr, rfl⟩ := List.mem_map.mp (List.mem_of_mem_head? he)
    exact ⟨stop ▸ behind r hr, le_rfl⟩
  rw [Text.spliceFrom_append bounds, ← stop, List.append_assoc, List.append_assoc]
  exact ((rest s scanned).piece known piece).separators blank id

/-- A row before a token stands among the separators there. -/
private theorem of_front {place : Nat} {w : List Char} (h : scanFrom 0 o s = t :: ts)
    (blank : ∀ c ∈ w, isSeparator c = true) (ahead : o ≤ place) (front : place ≤ t.span.start)
    (rest : ∀ s, scanFrom 0 place s = t :: ts →
      Spread (t :: ts) s (Text.spliceFrom place s (insertions runs))) :
    Spread (t :: ts) s (Text.spliceFrom o s (insertions ((place, w) :: runs))) := by
  obtain ⟨before, s, rfl, separators, _, span, _⟩ := scanFrom_eq_cons.mp h
  have start : t.span.start = o + Text.byteLength before := by rw [span]
  obtain ⟨a, b, rfl, size⟩ := exists_split (n := place - o) separators (by omega)
  obtain rfl : place = o + Text.byteLength a := by omega
  have first : ∀ c ∈ a, isSeparator c = true := fun c hc ↦ separators c (List.mem_append_left _ hc)
  have write := Text.spliceFrom_edit o a [] w (b ++ (t.text ++ s)) (insertions runs)
  rw [List.append_nil, List.append_assoc] at write
  simp only [List.append_assoc] at h ⊢
  rw [scanFrom_separators first] at h
  rw [insertions, List.map_cons, ← insertions, write, ← List.append_assoc a w]
  refine (rest _ h).separators (fun c hc ↦ ?_) fun none ↦ (List.append_eq_nil_iff.mp none).1
  exact (List.mem_append.mp hc).elim (first c) (blank c)

/-- Rows of separators around recognized tokens spread them. -/
theorem of_gaps (h : scanFrom 0 o s = ts) (known : ∀ t ∈ ts, t.kind ≠ .unrecognized)
    (gaps : Gaps ts runs) (ahead : ∀ r ∈ runs, o ≤ r.1) :
    Spread ts s (Text.spliceFrom o s (insertions runs)) := by
  induction ts generalizing o s runs with
  | nil =>
    refine nil fun c hc ↦ ?_
    rcases Text.mem_or_mem_of_mem_spliceFrom hc with old | ⟨e, he, new⟩
    · exact scanFrom_eq_nil_iff.mp h c old
    · obtain ⟨r, hr, rfl⟩ := List.mem_map.mp he
      exact isSeparator_iff.mpr (gaps.separators r hr c new)
  | cons t ts ih =>
    rw [List.forall_mem_cons] at known
    -- the rows before the token one by one, then all those behind it
    induction runs generalizing o s with
    | nil => exact of_behind h known.1 (by simp) fun s hs ↦ ih hs known.2 gaps.later (by simp)
    | cons r runs ihr =>
      have ascending := List.pairwise_cons.mp gaps.ascending
      rcases gaps.outside r List.mem_cons_self t List.mem_cons_self with front | behind
      · have blank : ∀ c ∈ r.2, isSeparator c = true := fun c hc ↦
          isSeparator_iff.mpr (gaps.separators r List.mem_cons_self c hc)
        exact of_front h blank (ahead r List.mem_cons_self) front fun s hs ↦
          ihr hs gaps.tail ascending.1
      · have later : ∀ r' ∈ r :: runs, t.span.stop ≤ r'.1 :=
          List.forall_mem_cons.mpr ⟨behind, fun r' hr' ↦ behind.trans (ascending.1 r' hr')⟩
        exact of_behind h known.1 later fun s hs ↦ ih hs known.2 gaps.later later

end Spread

end Token

namespace Expression

/-- Separators before, between and after the tokens of an expression do not matter: with more of
them, at whatever places outside of the tokens, the expression is the same. And texts with the same
tokens, in whatever places, are the same expression, or are refused for the same cause with the
same text quoted. -/
theorem parse_spacing (text : String) :
    (∀ spec, parse text = .ok spec → ∀ runs, Token.Gaps (Token.scan text.toList) runs →
      parse (String.ofList (Text.splice text.toList (Token.insertions runs))) = .ok spec) ∧
    ∀ text' : String,
      (Token.scan text.toList).map Token.lexeme = (Token.scan text'.toList).map Token.lexeme →
        (parse text).mapError (fun e ↦ (e.cause, e.slice)) =
          (parse text').mapError fun e ↦ (e.cause, e.slice) := by
  refine ⟨fun spec h runs gaps ↦ ?_, fun text' same ↦ unplaced_parse_congr same⟩
  have known := Grammar.recognized_of_sentence (Grammar.sentence_of_parse h)
  have spread := Token.Spread.of_gaps (o := 0) rfl known gaps fun _ _ ↦ Nat.zero_le _
  have alike : unplaced (parse (String.ofList (Text.splice text.toList (Token.insertions runs)))) =
      unplaced (parse text) := by
    apply unplaced_parse_congr
    rw [String.toList_ofList]
    exact spread.lexemes 0
  rwa [← unplaced_eq_ok, alike, unplaced_eq_ok]

/-- Separators around the tokens of an expression, also beside those that are there, leave it as it
is; and unrecognized text is refused alike with and without separators. -/
theorem parse_spacing_kept_die :
    (∃ spec, parse "2d6 kh1" = .ok spec ∧ parse " 2\td6\r\n kh1\n" = .ok spec) ∧
      (parse "2d6h1").mapError (fun e ↦ (e.cause, e.slice)) =
        (parse "2 d6 h 1").mapError fun e ↦ (e.cause, e.slice) := by
  constructor
  · let runs := [(0, [' ']), (1, ['\t']), (3, ['\r', '\n']), (7, ['\n'])]
    have gaps : Token.Gaps (Token.scan "2d6 kh1".toList) runs :=
      ⟨by simp [runs], by decide +kernel, by decide⟩
    have written : String.ofList (Text.splice "2d6 kh1".toList (Token.insertions runs)) =
        " 2\td6\r\n kh1\n" := by decide +kernel
    obtain ⟨spec, h⟩ : ∃ spec, parse "2d6 kh1" = .ok spec := ⟨_, rfl⟩
    have spaced := (parse_spacing "2d6 kh1").1 spec h runs gaps
    rw [written] at spaced
    exact ⟨spec, h, spaced⟩
  · exact (parse_spacing "2d6h1").2 "2 d6 h 1" (by decide +kernel)

end Expression

end DicePool
