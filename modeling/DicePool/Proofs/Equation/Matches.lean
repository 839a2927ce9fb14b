import DicePool.Equation.Scan
import DicePool.Proofs.Expression.Prefix
import DicePool.Proofs.Expression.Relabel

/-!
# Matches

A dice expression inside a text is read from tokens without gaps. What is read does not hang on the
tokens after it, so the text of the match is the same expression on its own, and no longer run of
tokens is one.
-/

namespace DicePool.Equation

open Token Expression

/-- A row of tokens begins with those up to its first gap. -/
theorem contiguous_prefix_self (ts : List Token) : contiguous ts <+: ts := by
  induction ts using contiguous.induct with
  | case1 a b rest h ih =>
    rw [contiguous, if_pos h]
    exact List.cons_prefix_cons.mpr ⟨rfl, ih⟩
  | case2 a b rest h =>
    rw [contiguous, if_neg h]
    exact List.cons_prefix_cons.mpr ⟨rfl, List.nil_prefix⟩
  | case3 ts short =>
    rw [contiguous.eq_def]
    split
    · exact (short _ _ _ rfl).elim
    · exact List.prefix_rfl

/-- The tokens up to the first gap have none. -/
theorem gapless_contiguous (t : Token) (ts : List Token) :
    ∃ b, Gapless t.span.start b (contiguous (t :: ts)) := by
  induction ts generalizing t with
  | nil => exact ⟨_, rfl, rfl⟩
  | cons t' ts ih =>
    rw [contiguous]
    split
    · next h =>
      obtain ⟨b, hb⟩ := ih t'
      have touch : t.span.stop = t'.span.start := by simpa [adjacent] using h
      exact ⟨b, rfl, touch ▸ hb⟩
    · exact ⟨_, rfl, rfl⟩

/-- A row in front without gaps ends before the first gap. -/
theorem prefix_contiguous {a b : Nat} {run : List Token} (more : List Token)
    (h : Gapless a b run) : run <+: contiguous (run ++ more) := by
  induction run generalizing a with
  | nil => exact List.nil_prefix
  | cons t run ih =>
    cases run with
    | nil =>
      cases more with
      | nil => exact List.prefix_rfl
      | cons t' more =>
        rw [List.cons_append, List.nil_append, contiguous]
        split <;> exact List.cons_prefix_cons.mpr ⟨rfl, List.nil_prefix⟩
    | cons t' run =>
      obtain ⟨_, touch, rest⟩ := h
      have adjacent : t.adjacent t' = true := by simp [Token.adjacent, touch]
      rw [List.cons_append, List.cons_append, contiguous, if_pos adjacent]
      exact List.cons_prefix_cons.mpr ⟨rfl, ih ⟨touch, rest⟩⟩

/-- Whether a term is read from the tokens `used`, where `left` are those after them up to the
first gap. -/
structure Match (t : Term) (used left : List Token) : Prop where
  gapless : Gapless t.span.start t.span.stop used
  text : t.text = joined used
  head : 3 ≤ used.length
  cut : ∀ stop ts, ts <+: left → parseTokens stop (used ++ ts) = .ok (t.spec, ts)
  last : ∀ d ∈ used.getLast?, d.kind = .dice → ¬Grammar.Starts [.integer] left

private theorem gapless_used {used left more : List Token} {t last : Token}
    (run : contiguous (t :: used ++ more) = t :: used ++ left)
    (hl : (t :: used).getLast? = some last) :
    Gapless t.span.start last.span.stop (t :: used) := by
  obtain ⟨b, all⟩ := gapless_contiguous t (used ++ more)
  rw [← List.cons_append, run] at all
  obtain ⟨m, gapless, _⟩ := gapless_append.mp all
  rwa [gapless.stop_getLast hl]

/-- A term is read from the first tokens. -/
theorem match_of_term {stop n : Nat} {t : Term} {ts : List Token} (h : term stop ts = .ok (t, n)) :
    ∃ used left more, ts = used ++ (left ++ more) ∧ contiguous ts = used ++ left ∧
      n = used.length ∧ Match t used left := by
  unfold term at h
  obtain ⟨⟨spec, left⟩, read, h⟩ := bind_eq_ok.mp h
  obtain ⟨used, run, head, cut, last⟩ := parseTokens_cut read
  obtain ⟨more, all⟩ := contiguous_prefix_self ts
  have taken : (contiguous ts).take ((contiguous ts).length - left.length) = used := by
    rw [run, List.length_append, Nat.add_sub_cancel, List.take_left]
  have tokens : ts = used ++ (left ++ more) := by rw [← List.append_assoc, ← run, all]
  simp only [taken] at h
  cases h
  refine ⟨used, left, more, tokens, run, rfl, ?_, rfl, head, cut, last⟩
  match used, head with
  | first :: used, _ =>
    rw [tokens] at run
    cases hl : (first :: used).getLast? with
    | none => simp at hl
    | some last => exact gapless_used run hl

namespace Match

/-- A match has tokens. -/
theorem ne_nil {t : Term} {used left : List Token} (h : Match t used left) : used ≠ [] := by
  rintro rfl
  have head := h.head
  simp at head

/-- A match begins at a token. -/
theorem exists_first {t : Term} {used left : List Token} (h : Match t used left) :
    ∃ first ∈ used, first.span.start = t.span.start := by
  obtain ⟨first, used, rfl⟩ := List.exists_cons_of_ne_nil h.ne_nil
  exact ⟨first, List.mem_cons_self, h.gapless.1⟩

/-- A match ends at its last token. -/
theorem exists_last {t : Term} {used left : List Token} (h : Match t used left) :
    ∃ last ∈ used, last.span.stop = t.span.stop := by
  obtain ⟨init, last, rfl⟩ := List.eq_nil_or_concat used |>.resolve_left h.ne_nil
  exact ⟨last, by simp, h.gapless.stop_getLast (by simp)⟩

variable {cs : List Char} {t : Term} {before used left more : List Token} (h : Match t used left)
  (hs : scan cs = before ++ (used ++ (left ++ more)))

include h hs

private theorem pieces : ∃ s, Pieces s used := by
  obtain ⟨_, after, _, _, _, pieces⟩ := scan_gapless hs h.gapless h.ne_nil
  exact ⟨after, pieces⟩

/-- The text of a match is the part of the whole text at its span, which is not empty. -/
theorem text_eq_slice :
    t.text.toList = Text.slice cs t.span ∧ t.span.start < t.span.stop := by
  obtain ⟨front, after, rfl, start, stop, _⟩ := scan_gapless hs h.gapless h.ne_nil
  have joined : t.text.toList = used.flatMap Token.text := by rw [h.text, Token.joined]; simp
  constructor
  · have span : t.span =
        ⟨Text.byteLength front, Text.byteLength front + Text.byteLength (used.flatMap Token.text)⟩ := by
      rw [← start, ← stop]
    rw [joined, span, Text.slice_append]
  · have extent := (span_of_mem_scanFrom hs).1
    obtain ⟨first, rest, rfl⟩ := List.exists_cons_of_ne_nil h.ne_nil
    obtain ⟨begins, gapless⟩ := h.gapless
    have bound := gapless.bounds fun t ht ↦ (extent t (by simp [ht])).2
    have pos := (extent first (by simp)).2
    omega

/-- The text of a match has tokens without gaps from its start to its end. -/
theorem gapless_scan : Gapless 0 (Text.byteLength t.text.toList) (scan t.text.toList) := by
  obtain ⟨s, pieces⟩ := h.pieces hs
  have joined : (joined used).toList = used.flatMap Token.text := by simp [Token.joined]
  have gapless := gapless_place 0 used
  rw [Nat.zero_add, ← joined] at gapless
  rwa [h.text, scan_joined pieces]

/-- The text of a match is the same expression on its own. -/
theorem parse_text_eq : parse t.text = .ok t.spec := by
  obtain ⟨s, pieces⟩ := h.pieces hs
  rw [h.text, parse_joined 0 pieces]
  simpa using h.cut 0 [] List.nil_prefix

/-- No longer row of tokens without gaps from the start of a match is an expression. -/
theorem maximal (hr : contiguous (used ++ (left ++ more)) = used ++ left)
    {before' run after : List Token} {stop : Nat} {spec : Spec}
    (hs' : scan cs = before' ++ (run ++ after)) (gapless : Gapless t.span.start stop run)
    (longer : t.span.stop < stop) : parse (joined run) ≠ .ok spec := by
  intro accepted
  have ne : run ≠ [] := by
    rintro rfl
    have nonempty := (h.text_eq_slice hs).2
    have empty : t.span.start = stop := gapless
    omega
  have whole : used ++ (left ++ more) = run ++ after := by
    obtain ⟨first, used, rfl⟩ := List.exists_cons_of_ne_nil h.ne_nil
    obtain ⟨first', run, rfl⟩ := List.exists_cons_of_ne_nil ne
    exact (eq_of_start_eq hs hs' (h.gapless.1.trans gapless.1.symm)).2
  obtain ⟨_, _, _, _, _, pieces⟩ := scan_gapless hs' gapless ne
  rw [parse_joined 0 pieces] at accepted
  rcases List.append_eq_append_iff.mp whole with ⟨c, rfl, rest⟩ | ⟨c, rfl, rest⟩
  · -- the longer row goes on with tokens that are left, and these stay left
    have cut : c <+: left := by
      have front := prefix_contiguous after gapless
      rwa [← whole, hr, List.prefix_append_right_inj] at front
    obtain rfl : c = [] := by
      have stays := (h.cut 0 c cut).symm.trans accepted
      exact (Prod.mk.inj (Except.ok.inj stays)).2
    rw [List.append_nil] at gapless
    exact absurd (h.gapless.stop_unique gapless) longer.ne
  · obtain ⟨m, gapless', after⟩ := gapless_append.mp h.gapless
    obtain rfl := gapless.stop_unique gapless'
    have extent := (span_of_mem_scanFrom hs).1
    have bound := (after.bounds fun x hx ↦ (extent x (by simp [hx])).2).1
    omega

end Match

end DicePool.Equation
