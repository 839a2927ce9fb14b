import DicePool.Proofs.Expression.Errors

/-!
# Errors of the head

The first three tokens of an expression are its head. What is wrong with the sides is told before
what is wrong with the count, and both before anything else, so that these errors are the same
whatever follows the head.
-/

namespace DicePool.Expression

open Token

variable {stop stop' : Nat} {n d s : Token} {ts ts' rest : List Token} {e : ParseError}
  {k : ErrorKind}

/-- What is wrong with a token as the sides of a die. -/
inductive BadSides (s : Token) : ErrorKind → Prop
  | other (number : s.kind ≠ .integer) (list : s.kind ≠ .faceList) : BadSides s .unknownSides
  | list (list : s.kind = .faceList) (none : FaceSet.ofText? s.text = none) :
    BadSides s .unknownSides
  | zero (number : s.kind = .integer) (zero : s.number = 0) : BadSides s .impossibleFaces
  | many (number : s.kind = .integer) (many : 100 < s.number) : BadSides s .tooManyFaces

/-- Sides are refused for what is wrong with them. -/
theorem sides_eq_error (h : sides s = .error e) :
    e = .atToken e.cause s ∧ BadSides s e.kind := by
  unfold sides at h
  split at h
  · next number =>
    split at h
    · next many =>
      cases h
      exact ⟨rfl, .many number many⟩
    · next few =>
      split at h
      · contradiction
      · next none =>
        cases h
        refine ⟨rfl, .zero number ?_⟩
        unfold FaceSet.ofSides? at none
        unfold maxSides at few
        split at none
        · contradiction
        · omega
  · next number =>
    split at h
    · next list =>
      split at h
      · contradiction
      · next none =>
        cases h
        exact ⟨rfl, .list list none⟩
    · next list =>
      cases h
      exact ⟨rfl, .other number list⟩

/-- Sides with something wrong are refused for it. -/
theorem BadSides.exists_error (h : BadSides s k) : ∃ e, sides s = .error e ∧ e.kind = k := by
  cases h with
  | other number list => exact ⟨_, by rw [sides, if_neg number, if_neg list], rfl⟩
  | list list none =>
    have number : s.kind ≠ .integer := by simp [list]
    exact ⟨_, by rw [sides, if_neg number, if_pos list, none], rfl⟩
  | zero number zero =>
    have none : FaceSet.ofSides? s.number = none := by simp [FaceSet.ofSides?, zero]
    have few : ¬maxSides < s.number := by simp [zero]
    exact ⟨_, by rw [sides, if_pos number, if_neg few, none], rfl⟩
  | many number many =>
    have above : maxSides < s.number := many
    exact ⟨_, by rw [sides, if_pos number, if_pos above], rfl⟩

/-- Counts are refused above two hundred and at zero. -/
theorem diceCount_eq_error (h : diceCount n = .error e) :
    e = .atToken .tooManyDice n ∧ 200 < n.number ∨ e = .atToken .noDice n := by
  unfold diceCount at h
  split at h
  · next many =>
    cases h
    exact .inl ⟨rfl, many⟩
  · split at h
    · cases h
      exact .inr rfl
    · contradiction

/-- How a head is refused: for its first token or its second, for sides that are missing, for its
sides, or for its count. -/
inductive Refused (stop : Nat) : List Token → ParseError → Prop
  | first {ts : List Token} (other : ∀ n ∈ ts.head?, n.kind ≠ .integer) :
    Refused stop ts (.unexpected [.integer] stop ts)
  | second {n : Token} {ts : List Token} (hn : n.kind = .integer)
    (other : ∀ d ∈ ts.head?, d.kind ≠ .dice) :
    Refused stop (n :: ts) (.unexpected [.dice] stop ts)
  | missing {n d : Token} (hn : n.kind = .integer) (hd : d.kind = .dice) :
    Refused stop [n, d] (.atEnd .unknownSides stop)
  | sides {n d s : Token} {rest : List Token} {e : ParseError} (hn : n.kind = .integer)
    (hd : d.kind = .dice) (fails : sides s = .error e) : Refused stop (n :: d :: s :: rest) e
  | count {n d s : Token} {rest : List Token} {faces : FaceSet} {e : ParseError}
    (hn : n.kind = .integer) (hd : d.kind = .dice) (read : Expression.sides s = .ok faces)
    (fails : diceCount n = .error e) : Refused stop (n :: d :: s :: rest) e

private theorem expect_of_kind {kind : TokenKind} {t : Token} (h : t.kind = kind) :
    expect kind stop (t :: ts) = .ok (t, ts) := if_pos h

private theorem expect_eq_error_iff {kind : TokenKind} :
    expect kind stop ts = .error e ↔
      (∀ t ∈ ts.head?, t.kind ≠ kind) ∧ e = .unexpected [kind] stop ts := by
  cases ts with
  | nil => simp [expect, eq_comm]
  | cons t ts => by_cases h : t.kind = kind <;> simp [expect, h, eq_comm (a := e)]

/-- A head that fails is refused, and fails in the way in which it is refused. -/
theorem head_eq_error_iff : head stop ts = .error e ↔ Refused stop ts e := by
  constructor
  · intro h
    rcases bind_eq_error.mp h with first | ⟨⟨n, ts₁⟩, count, afterCount⟩
    · obtain ⟨other, rfl⟩ := expect_eq_error_iff.mp first
      exact .first other
    obtain ⟨rfl, hn⟩ := Grammar.expect_eq_ok.mp count
    rcases bind_eq_error.mp afterCount with second | ⟨⟨d, ts₂⟩, dice, afterDice⟩
    · obtain ⟨other, rfl⟩ := expect_eq_error_iff.mp second
      exact .second hn other
    obtain ⟨rfl, hd⟩ := Grammar.expect_eq_ok.mp dice
    cases ts₂ with
    | nil =>
      cases afterDice
      exact .missing hn hd
    | cons s rest =>
      rcases bind_eq_error.mp afterDice with fails | ⟨faces, read, afterSides⟩
      · exact .sides hn hd fails
      rcases bind_eq_error.mp afterSides with fails | ⟨_, _, done⟩
      · exact .count hn hd read fails
      · contradiction
  · intro h
    cases h with
    | first other => exact bind_eq_error.mpr (.inl (expect_eq_error_iff.mpr ⟨other, rfl⟩))
    | second hn other =>
      exact bind_eq_error.mpr (.inr ⟨_, expect_of_kind hn,
        bind_eq_error.mpr (.inl (expect_eq_error_iff.mpr ⟨other, rfl⟩))⟩)
    | missing hn hd =>
      exact bind_eq_error.mpr (.inr ⟨_, expect_of_kind hn,
        bind_eq_error.mpr (.inr ⟨_, expect_of_kind hd, rfl⟩)⟩)
    | sides hn hd fails =>
      exact bind_eq_error.mpr (.inr ⟨_, expect_of_kind hn, bind_eq_error.mpr (.inr
        ⟨_, expect_of_kind hd, bind_eq_error.mpr (.inl fails)⟩)⟩)
    | count hn hd read fails =>
      exact bind_eq_error.mpr (.inr ⟨_, expect_of_kind hn, bind_eq_error.mpr (.inr
        ⟨_, expect_of_kind hd, bind_eq_error.mpr (.inr
          ⟨_, read, bind_eq_error.mpr (.inl fails)⟩)⟩)⟩)

private theorem exists_of_take_three (same : ts.take 3 = (n :: d :: s :: rest).take 3) :
    ∃ rest', ts = n :: d :: s :: rest' :=
  ⟨ts.drop 3, (List.take_append_drop 3 ts).symm.trans (congrArg (· ++ ts.drop 3) same)⟩

namespace Refused

/-- A head is refused at one of its tokens or at the end. -/
theorem among (h : Refused stop ts e) : e.Among stop ts := by
  cases h with
  | first => exact among_unexpected _ _ _
  | second => exact (among_unexpected _ _ _).mono (List.subset_cons_self _ _)
  | missing => exact .atEnd _
  | sides _ _ fails =>
    rw [(sides_eq_error fails).1]
    exact .atToken _ (by simp)
  | count _ _ _ fails =>
    rcases diceCount_eq_error fails with ⟨rfl, _⟩ | rfl <;> exact .atToken _ (by simp)

/-- A head that is refused for its sides or its count is refused in the same way whatever follows
it. -/
theorem congr (h : Refused stop ts e) (good : e.kind ≠ .badExpression)
    (same : ts'.take 3 = ts.take 3) (ends : ts.length < 3 → stop' = stop) :
    Refused stop' ts' e := by
  cases h with
  | first => exact absurd (kind_unexpected _ _ _) good
  | second => exact absurd (kind_unexpected _ _ _) good
  | missing hn hd =>
    obtain rfl := ends (by simp)
    match ts', same with
    | [_, _], rfl => exact .missing hn hd
  | @sides n d s _ _ hn hd fails =>
    obtain ⟨rest', rfl⟩ := exists_of_take_three same
    exact .sides hn hd fails
  | @count n d s _ _ _ hn hd read fails =>
    obtain ⟨rest', rfl⟩ := exists_of_take_three same
    exact .count hn hd read fails

end Refused

/-- What is wrong with the first three tokens where they begin with a count and `d`: there are no
sides, something is wrong with the sides, or there are too many dice with sides that are allowed. -/
inductive HeadFault : List Token → ErrorKind → Prop
  | missing {n d : Token} (hn : n.kind = .integer) (hd : d.kind = .dice) :
    HeadFault [n, d] .unknownSides
  | sides {n d s : Token} {rest : List Token} {k : ErrorKind} (hn : n.kind = .integer)
    (hd : d.kind = .dice) (bad : BadSides s k) : HeadFault (n :: d :: s :: rest) k
  | count {n d s : Token} {rest : List Token} (hn : n.kind = .integer) (hd : d.kind = .dice)
    (hs : s.kind = .integer ∨ s.kind = .faceList) (allowed : Grammar.SidesAllowed s)
    (many : 200 < n.number) : HeadFault (n :: d :: s :: rest) .tooManyDice

/-- Nothing that is wrong with a head is a bad expression. -/
theorem HeadFault.ne_badExpression (h : HeadFault ts k) : k ≠ .badExpression := by
  cases h with
  | missing => decide
  | sides _ _ bad => cases bad <;> decide
  | count => decide

/-- Something is wrong with a head exactly if it is refused for it. -/
theorem headFault_iff (stop : Nat) (good : k ≠ .badExpression) :
    HeadFault ts k ↔ ∃ e, Refused stop ts e ∧ e.kind = k := by
  constructor
  · intro h
    cases h with
    | missing hn hd => exact ⟨_, .missing hn hd, rfl⟩
    | sides hn hd bad =>
      obtain ⟨e, fails, kind⟩ := bad.exists_error
      exact ⟨e, .sides hn hd fails, kind⟩
    | @count n _ _ _ hn hd hs allowed many =>
      obtain ⟨faces, read⟩ := (Grammar.exists_sides_iff hs).mpr allowed
      have above : maxDice < n.number := many
      exact ⟨_, .count hn hd read (if_pos above), rfl⟩
  · rintro ⟨e, h, rfl⟩
    cases h with
    | first => exact absurd (kind_unexpected _ _ _) good
    | second => exact absurd (kind_unexpected _ _ _) good
    | missing hn hd => exact .missing hn hd
    | sides hn hd fails => exact .sides hn hd (sides_eq_error fails).2
    | count hn hd read fails =>
      rcases diceCount_eq_error fails with ⟨rfl, many⟩ | rfl
      · have hs := Grammar.kind_of_sides read
        exact .count hn hd hs ((Grammar.exists_sides_iff hs).mp ⟨_, read⟩) many
      · exact absurd rfl good

variable {text text' : String}

/-- A text is refused as its head is. -/
theorem parse_eq_error_of_head
    (h : head (Text.byteLength text.toList) (scan text.toList) = .error e) :
    parse text = .error e :=
  bind_eq_error.mpr (.inl (bind_eq_error.mpr (.inl h)))

/-- An error that is not a bad expression is of the kind of what is wrong with the head. -/
theorem kind_eq_iff_headFault (h : parse text = .error e) :
    e.kind = k ∧ k ≠ .badExpression ↔ HeadFault (scan text.toList) k := by
  rcases parse_eq_error h with refused | ⟨⟨x, read⟩, bad, _⟩
  · constructor
    · rintro ⟨rfl, good⟩
      exact (headFault_iff _ good).mpr ⟨e, head_eq_error_iff.mp refused, rfl⟩
    · intro fault
      obtain ⟨e', refused', rfl⟩ :=
        (headFault_iff (Text.byteLength text.toList) fault.ne_badExpression).mp fault
      obtain rfl := Except.error.inj (refused.symm.trans (head_eq_error_iff.mpr refused'))
      exact ⟨rfl, fault.ne_badExpression⟩
  · -- the head is read, so nothing is wrong with it
    constructor
    · rintro ⟨rfl, good⟩
      exact absurd bad good
    · intro fault
      obtain ⟨e', refused, _⟩ :=
        (headFault_iff (Text.byteLength text.toList) fault.ne_badExpression).mp fault
      exact nomatch read.symm.trans (head_eq_error_iff.mpr refused)

/-- An error that is not a bad expression is the error of every text that begins with the same three
tokens. -/
theorem parse_eq_error_congr (h : parse text = .error e) (good : e.kind ≠ .badExpression)
    (same : (scan text'.toList).take 3 = (scan text.toList).take 3)
    (ends : (scan text.toList).length < 3 →
      Text.byteLength text'.toList = Text.byteLength text.toList) :
    parse text' = .error e := by
  rcases parse_eq_error h with refused | ⟨_, bad, _⟩
  · have refused' := (head_eq_error_iff.mp refused).congr good same ends
    exact parse_eq_error_of_head (head_eq_error_iff.mpr refused')
  · exact absurd bad good

/-- The kind of an error is decided by the head, before any clause: it is what is wrong with the
first three tokens, and a bad expression if nothing is. Where something is wrong with the first
three tokens, the whole error is the same for every text that begins with them, and, if there are
less than three, is as long. -/
theorem parse_error_kind {text : String} (h : parse text = .error e) :
    (∀ k, e.kind = k ∧ k ≠ .badExpression ↔ HeadFault (scan text.toList) k) ∧
    (e.kind = .badExpression ↔ ∀ k, ¬HeadFault (scan text.toList) k) ∧
    (e.kind ≠ .badExpression → ∀ text' : String,
      (scan text'.toList).take 3 = (scan text.toList).take 3 →
      ((scan text.toList).length < 3 →
        Text.byteLength text'.toList = Text.byteLength text.toList) →
      parse text' = .error e) := by
  refine ⟨fun k ↦ kind_eq_iff_headFault h, ⟨fun bad k fault ↦ ?_, fun none ↦ ?_⟩,
    fun good text' ↦ parse_eq_error_congr h good⟩
  · obtain ⟨rfl, good⟩ := (kind_eq_iff_headFault h).mpr fault
    exact good bad
  · by_contra good
    exact none e.kind ((kind_eq_iff_headFault h).mp ⟨rfl, good⟩)

/-- Too many dice, written with zeros in front, are too many before a sign without a number and
before words. -/
theorem parse_error_kind_manyDice :
    ∃ e, parse "00000000000000000000201d6+" = .error e ∧ e.kind = .tooManyDice ∧
      HeadFault (scan "00000000000000000000201d6+".toList) .tooManyDice ∧
      parse "00000000000000000000201d6 dice" = .error e := by
  have fails : parse "00000000000000000000201d6+" =
      .error ⟨.tooManyDice, ⟨0, 23⟩, "00000000000000000000201"⟩ := by decide +kernel
  obtain ⟨kinds, _, stays⟩ := parse_error_kind fails
  exact ⟨_, fails, rfl, (kinds .tooManyDice).mp ⟨rfl, by decide⟩,
    stays (by decide) _ (by decide +kernel) fun short ↦ absurd short (by decide +kernel)⟩

end DicePool.Expression
