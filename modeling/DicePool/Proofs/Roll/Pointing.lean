import DicePool.Proofs.Equation.Terms
import DicePool.Proofs.Expression.Head
import DicePool.Proofs.Roll.Failure

/-!
# Where errors point

An error of reading points at a part of the text that is read: its span begins and ends between
characters, and its slice is what stands there. An expression that is rolled is read with the totals
of its nested terms in their places, and a nested term is read by itself; its errors point into the
text that has been read.
-/

namespace DicePool

open Token Expression

/-- Whether an error points into a text. -/
structure ParseError.PointsInto (e : ParseError) (text : String) : Prop where
  ordered : e.span.start ≤ e.span.stop
  inside : e.span.stop ≤ text.utf8ByteSize
  start : String.Pos.Raw.IsValid text ⟨e.span.start⟩
  stop : String.Pos.Raw.IsValid text ⟨e.span.stop⟩
  slice : e.slice = String.Pos.Raw.extract text ⟨e.span.start⟩ ⟨e.span.stop⟩

namespace ParseError

variable {text : String} {e : ParseError}

/-- An error at a part of a text points into it. -/
theorem pointsInto_of_append (cause : ParseCause) {a m b : List Char}
    (h : text.toList = a ++ m ++ b) :
    PointsInto ⟨cause, ⟨Text.byteLength a, Text.byteLength a + Text.byteLength m⟩, String.ofList m⟩
      text := by
  obtain ⟨ordered, inside, start, stop, part⟩ := Text.standsAt_of_append h
  exact ⟨ordered, inside, start, stop, part⟩

/-- An error at a row of tokens without gaps points into the text of the tokens. -/
theorem pointsInto_of_gapless (cause : ParseCause) {before run after : List Token} {a b : Nat}
    (h : scan text.toList = before ++ (run ++ after)) (gapless : Gapless a b run)
    (ne : run ≠ []) : PointsInto ⟨cause, ⟨a, b⟩, joined run⟩ text := by
  obtain ⟨_, _, parts, rfl, rfl, _⟩ := scan_gapless h gapless ne
  exact pointsInto_of_append cause parts

/-- An error at a token or at the end points into the text of the tokens. -/
theorem Among.pointsInto (h : e.Among (Text.byteLength text.toList) (scan text.toList)) :
    e.PointsInto text := by
  cases h with
  | atEnd cause =>
    have parts : text.toList = text.toList ++ [] ++ [] := by simp
    exact pointsInto_of_append cause parts
  | @atToken cause t ht =>
    obtain ⟨before, after, tokens⟩ := List.append_of_mem ht
    have row : scan text.toList = before ++ ([t] ++ after) := tokens
    have one : joined [t] = String.ofList t.text := by simp [joined]
    have points := pointsInto_of_gapless cause row ⟨rfl, rfl⟩ (List.cons_ne_nil t [])
    rwa [one] at points

end ParseError

namespace Expression

variable {stop : Nat} {ts : List Token} {text : String} {e : ParseError}

/-- Tokens that are no specification are refused at one of them or at the end. -/
theorem among_of_parseTokens (h : parseTokens stop ts = .error e) : e.Among stop ts := by
  rcases parseTokens_eq_error h with refused | ⟨_, _, among⟩
  · exact (head_eq_error_iff.mp refused).among
  · exact among

/-- An error of reading an expression points into its text. -/
theorem pointsInto_of_parse (h : parse text = .error e) : e.PointsInto text := by
  rcases parse_eq_error h with refused | ⟨_, _, among⟩
  · exact (head_eq_error_iff.mp refused).among.pointsInto
  · exact among.pointsInto

/-- An error of reading an expression literally points into its text. -/
theorem pointsInto_of_parseLiteral (h : parseLiteral text = .error e) : e.PointsInto text := by
  unfold parseLiteral at h
  split at h
  · next t more terms =>
    cases h
    have nested : t ∈ nestedTermsOf text.toList (scan text.toList) := by
      rw [← nestedTerms, terms]
      exact List.mem_cons_self
    obtain ⟨before, rest, tokens, found⟩ := exists_of_mem_nestedTermsOf nested
    obtain ⟨_, _, _, _, _, _, nd, ds⟩ := nestedTerm?_eq_some found
    have row : scan text.toList =
        (before ++ [t.operator]) ++ ([t.count, t.dice, t.sides] ++ rest) := by simpa using tokens
    exact ParseError.pointsInto_of_gapless .nestedDice row ⟨rfl, nd.symm, ds.symm, rfl⟩ (by simp)
  · exact pointsInto_of_parse h

end Expression

namespace Equation

variable {stop : Nat} {ts : List Token} {text : String} {e : ParseError}

private theorem among_of_term (h : term stop ts = .error e) : e.Among stop ts := by
  rcases bind_eq_error.mp h with refused | ⟨_, _, done⟩
  · exact (among_of_parseTokens refused).mono (contiguous_prefix_self ts).subset
  · contradiction

private theorem among_of_termsFrom {n : Nat} (h : termsFrom stop n ts = .error e) :
    e.Among stop ts := by
  induction ts generalizing n with
  | nil => contradiction
  | cons t ts ih =>
    have later {m : Nat} (fails : termsFrom stop m ts = .error e) : e.Among stop (t :: ts) :=
      (ih fails).mono (List.subset_cons_self t ts)
    cases n with
    | succ n => exact later h
    | zero =>
      rw [termsFrom] at h
      split at h
      · rcases bind_eq_error.mp h with refused | ⟨⟨found, used⟩, _, rest⟩
        · exact among_of_term refused
        rcases bind_eq_error.mp rest with fails | ⟨_, _, done⟩
        · exact later fails
        · contradiction
      · exact later h

/-- An error of looking for the dice expressions of a text points into the text. -/
theorem pointsInto_of_terms (h : terms text = .error e) : e.PointsInto text :=
  (among_of_termsFrom h).pointsInto

end Equation

namespace Rolling

variable {σ : Type} [Roller σ] {e : ParseError} {c c' : Context σ}

private theorem exists_of_mapM_substitute {terms : List NestedTerm}
    (h : (terms.mapM substitute).run c = (.error (.parse e), c')) :
    ∃ t ∈ terms, Expression.parse t.text = .error e := by
  obtain ⟨_, t, _, _, _, rfl, _, fails⟩ := run_mapM_eq_error_iff.mp h
  exact ⟨t, by simp, (failure_of_substitute fails).1⟩

/-- An expression that is not read has a nested term that is not read by itself, or is not read with
the totals of its nested terms in their places. -/
theorem unread_of_parse {text : String} (h : (parse text).run c = (.error (.parse e), c')) :
    (∃ rewritten subs, (resolveNested text).run c = (.ok (rewritten, subs), c') ∧
      Expression.parse rewritten = .error e) ∨
    ∃ t ∈ nestedTerms text.toList, Expression.parse t.text = .error e := by
  rcases run_bind_eq_error_iff.mp h with nested | ⟨⟨rewritten, subs⟩, c₁, resolved, unread⟩
  · exact .inr (exists_of_mapM_substitute (run_bind_pure_eq_error_iff.mp nested))
  · obtain ⟨read, rfl⟩ := failure_of_ofParse (fun _ ↦ .pure _) unread
    exact .inl ⟨rewritten, subs, resolved, read⟩

end Rolling

/-- Every error of reading points into the text that is read. -/
theorem reading_errors_point_into_text (text : String) (e : ParseError) :
    (Expression.parse text = .error e → e.PointsInto text) ∧
    (Expression.parseLiteral text = .error e → e.PointsInto text) ∧
    (Equation.terms text = .error e → e.PointsInto text) ∧
    ∀ (σ : Type) [Roller σ] (c c' : Context σ),
      (Rolling.parse text).run c = (.error (.parse e), c') →
      (∃ rewritten subs, (Rolling.resolveNested text).run c = (.ok (rewritten, subs), c') ∧
        Expression.parse rewritten = .error e ∧ e.PointsInto rewritten) ∨
      ∃ t ∈ nestedTerms text.toList,
        Expression.parse t.text = .error e ∧ e.PointsInto t.text := by
  refine ⟨pointsInto_of_parse, pointsInto_of_parseLiteral, Equation.pointsInto_of_terms,
    fun σ _ c c' h ↦ ?_⟩
  rcases Rolling.unread_of_parse h with ⟨rewritten, subs, resolved, unread⟩ | ⟨t, ht, unread⟩
  · exact .inl ⟨rewritten, subs, resolved, unread, pointsInto_of_parse unread⟩
  · exact .inr ⟨t, ht, unread, pointsInto_of_parse unread⟩

/-- An error behind an accented letter is as many bytes behind, and an error behind a nested term is
where it is behind the total of the term. -/
theorem reading_errors_point_into_text_accented :
    (∃ e, Expression.parse "1d20é" = .error e ∧ e.span = ⟨4, 6⟩ ∧ e.PointsInto "1d20é") ∧
    (∃ e, Expression.parseLiteral "1d20+1d4" = .error e ∧ e.span = ⟨5, 8⟩ ∧
      e.PointsInto "1d20+1d4") ∧
    (∃ e, Equation.terms "é 1d0" = .error e ∧ e.span = ⟨5, 6⟩ ∧ e.PointsInto "é 1d0") ∧
    ∃ e c', (Rolling.parse "1d20+1d4 é").run (Context.new {} (Source.step 1 1)) =
        (.error (.parse e), c') ∧ e.span = ⟨7, 9⟩ ∧
      ∃ rewritten subs, (Rolling.resolveNested "1d20+1d4 é").run
          (Context.new {} (Source.step 1 1)) = (.ok (rewritten, subs), c') ∧
        e.PointsInto rewritten := by
  have unread : Expression.parse "1d20é" = .error ⟨.unrecognizedText [], ⟨4, 6⟩, "é"⟩ := by
    decide +kernel
  have literal : Expression.parseLiteral "1d20+1d4" = .error ⟨.nestedDice, ⟨5, 8⟩, "1d4"⟩ := by
    decide +kernel
  have zero : Equation.terms "é 1d0" = .error ⟨.impossibleFaces, ⟨5, 6⟩, "0"⟩ := by
    decide +kernel
  obtain ⟨c', run, _⟩ := Rolling.exists_failure
    (r := (Rolling.parse "1d20+1d4 é").run (Context.new {} (Source.step 1 1)))
    (e := .parse ⟨.unrecognizedText [], ⟨7, 9⟩, "é"⟩) (f := fun _ ↦ ()) (by decide +kernel) rfl
  refine ⟨⟨_, unread, rfl, (reading_errors_point_into_text _ _).1 unread⟩,
    ⟨_, literal, rfl, (reading_errors_point_into_text _ _).2.1 literal⟩,
    ⟨_, zero, rfl, (reading_errors_point_into_text _ _).2.2.1 zero⟩, _, c', run, rfl, ?_⟩
  rcases (reading_errors_point_into_text _ _).2.2.2 Source _ c' run with
    ⟨rewritten, subs, resolved, _, points⟩ | ⟨t, ht, fails, _⟩
  · exact ⟨rewritten, subs, resolved, points⟩
  · have read : ∀ t ∈ nestedTerms "1d20+1d4 é".toList,
        (Expression.parse t.text).toOption.isSome = true := by decide +kernel
    have some := read t ht
    rw [fails] at some
    exact nomatch some

end DicePool
