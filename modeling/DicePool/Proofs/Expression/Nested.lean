import DicePool.Expression.Nested
import DicePool.Proofs.Token.Mark
import Mathlib.Data.List.Infix
import Mathlib.Tactic.Tauto

/-!
# Nested terms among tokens

The nested terms of a text are found in one pass that jumps over the tokens of each term. The first
of them is the first that is found when every token is looked at, and there is none exactly if no
operator among the marks of the text has a dice term right after it.
-/

namespace DicePool.Expression

open Token

variable {cs : List Char} {ts : List Token}

/-- A nested term is an operator, a count, `d` and sides without gaps. -/
theorem nestedTerm?_eq_some {o n d s : Token} {rest : List Token} {t : NestedTerm}
    (h : nestedTerm? cs (o :: n :: d :: s :: rest) = some t) :
    t = ⟨o, n, d, s⟩ ∧ opensNested o.kind = true ∧ n.kind = .integer ∧ d.kind = .dice ∧
      s.kind = .integer ∧ o.span.stop = n.span.start ∧ n.span.stop = d.span.start ∧
      d.span.stop = s.span.start := by
  unfold nestedTerm? at h
  split at h
  · next same =>
    cases same
    split at h
    · next all =>
      simp only [Bool.and_eq_true, decide_eq_true_eq, adjacent] at all
      exact ⟨(Option.some.inj h).symm, by tauto⟩
    · contradiction
  · next short => exact absurd rfl (short o n d s rest)

-- stated by hand: the equations that `rw` derives from these patterns take seconds to make
private theorem nestedTermsOf_cons {o n d s : Token} {rest : List Token} :
    nestedTermsOf cs (o :: n :: d :: s :: rest) =
      match nestedTerm? cs (o :: n :: d :: s :: rest) with
      | some t => t :: nestedTermsOf cs rest
      | none => nestedTermsOf cs (n :: d :: s :: rest) := (rfl)

/-- The tokens of a term are jumped over. -/
theorem nestedTermsOf_of_some {o n d s : Token} {rest : List Token} {t : NestedTerm}
    (h : nestedTerm? cs (o :: n :: d :: s :: rest) = some t) :
    nestedTermsOf cs (o :: n :: d :: s :: rest) = t :: nestedTermsOf cs rest := by
  rw [nestedTermsOf_cons, h]

/-- A token that begins no term is passed. -/
theorem nestedTermsOf_of_none {o : Token} (h : nestedTerm? cs (o :: ts) = none) :
    nestedTermsOf cs (o :: ts) = nestedTermsOf cs ts := by
  match ts with
  | [] | [_] | [_, _] => rfl
  | n :: d :: s :: rest => rw [nestedTermsOf_cons, h]

/-- Every row of tokens is empty, or begins with a token that begins no term, or with the four
tokens of a nested term. -/
theorem nested_induction {motive : List Token → Prop} (cs : List Char) (nil : motive [])
    (pass : ∀ o ts, nestedTerm? cs (o :: ts) = none → motive ts → motive (o :: ts))
    (jump : ∀ o n d s rest, nestedTerm? cs (o :: n :: d :: s :: rest) = some ⟨o, n, d, s⟩ →
      motive rest → motive (o :: n :: d :: s :: rest)) (ts : List Token) : motive ts := by
  induction ts using nestedTermsOf.induct cs with
  | case1 o n d s rest t found ih =>
    obtain ⟨rfl, _⟩ := nestedTerm?_eq_some found
    exact jump o n d s rest found ih
  | case2 o n d s rest none ih => exact pass o _ none ih
  | case3 ts short =>
    match ts, short with
    | [], _ => exact nil
    | [a], _ => exact pass a _ rfl nil
    | [a, b], _ => exact pass a _ rfl (pass b _ rfl nil)
    | [a, b, c], _ => exact pass a _ rfl (pass b _ rfl (pass c _ rfl nil))
    | _ :: _ :: _ :: _ :: _, short => exact (short _ _ _ _ _ rfl).elim

/-- Where no dice follow the first two tokens there are no nested terms. -/
theorem nestedTermsOf_eq_nil (h : TokenKind.dice ∉ (ts.map Token.kind).drop 2) :
    nestedTermsOf cs ts = [] := by
  induction ts using nested_induction cs with
  | nil => rfl
  | pass o ts none ih =>
    rw [nestedTermsOf_of_none none]
    refine ih fun later ↦ h ?_
    exact List.mem_of_mem_drop (by simpa [List.drop_drop] using later)
  | jump o n d s rest found ih =>
    obtain ⟨_, _, _, dice, _⟩ := nestedTerm?_eq_some found
    simp [dice] at h

/-- Nested terms stand among the tokens. -/
theorem exists_of_mem_nestedTermsOf {t : NestedTerm} (h : t ∈ nestedTermsOf cs ts) :
    ∃ before rest, ts = before ++ t.operator :: t.count :: t.dice :: t.sides :: rest ∧
      nestedTerm? cs (t.operator :: t.count :: t.dice :: t.sides :: rest) = some t := by
  induction ts using nested_induction cs with
  | nil => contradiction
  | pass o ts none ih =>
    rw [nestedTermsOf_of_none none] at h
    obtain ⟨before, rest', same, found⟩ := ih h
    exact ⟨o :: before, rest', by rw [same, List.cons_append], found⟩
  | jump o n d s rest found ih =>
    rw [nestedTermsOf_of_some found, List.mem_cons] at h
    rcases h with rfl | h
    · exact ⟨[], rest, rfl, found⟩
    · obtain ⟨before, rest', rfl, found'⟩ := ih h
      exact ⟨o :: n :: d :: s :: before, rest', rfl, found'⟩

/-- A nested term where it stands in its text. -/
structure NestedTerm.Placed (t : NestedTerm) (cs : List Char) : Prop where
  operator : t.operator ∈ scan cs
  opens : opensNested t.operator.kind = true
  touches : t.operator.span.stop = t.span.start
  nonempty : t.span.start < t.span.stop
  slice : t.text.toList = Text.slice cs t.span
  kinds : t.count.kind = .integer ∧ t.dice.kind = .dice ∧ t.sides.kind = .integer
  pieces : ∃ after, Pieces after [t.count, t.dice, t.sides]

/-- Nested terms are placed in their text. -/
theorem placed_of_mem_nestedTerms {t : NestedTerm} (h : t ∈ nestedTerms cs) : t.Placed cs := by
  obtain ⟨before, rest, tokens, found⟩ := exists_of_mem_nestedTermsOf h
  obtain ⟨_, opens, hn, hd, hs, touches, nd, ds⟩ := nestedTerm?_eq_some found
  have row : scan cs = (before ++ [t.operator]) ++ ([t.count, t.dice, t.sides] ++ rest) := by
    simpa using tokens
  have operator : t.operator ∈ scan cs := by simp [tokens]
  have gapless : Gapless t.count.span.start t.sides.span.stop [t.count, t.dice, t.sides] :=
    ⟨rfl, nd.symm, ds.symm, rfl⟩
  have extent : ∀ x ∈ [t.count, t.dice, t.sides], x.span.start < x.span.stop := by
    intro x hx
    have mem : x ∈ scan cs := by simp only [row, List.mem_append, hx, true_or, or_true]
    exact ((span_of_mem_scanFrom rfl).1 x mem).2
  obtain ⟨front, after, rfl, start, stop, pieces⟩ := scan_gapless row gapless (by simp)
  have within := (gapless.bounds extent).2 t.count (by simp)
  have count := extent t.count (by simp)
  refine ⟨operator, opens, touches, ?_, ?_, ⟨hn, hd, hs⟩, after, pieces⟩
  · simp only [NestedTerm.span]
    omega
  · have joined : t.text.toList = [t.count, t.dice, t.sides].flatMap text := by
      simp [NestedTerm.text, joined]
    rw [joined, NestedTerm.span, stop, start, Text.slice_append]

/-- A nested term is written as digits, `d` and digits. -/
theorem NestedTerm.Placed.text_eq {t : NestedTerm} (h : t.Placed cs) :
    t.text.toList = t.count.text ++ 'd' :: t.sides.text ∧
      (t.count.text ≠ [] ∧ ∀ c ∈ t.count.text, c.isDigit = true) ∧
      (t.sides.text ≠ [] ∧ ∀ c ∈ t.sides.text, c.isDigit = true) := by
  obtain ⟨after, count, dice, sides, _⟩ := h.pieces
  obtain ⟨hn, hd, hs⟩ := h.kinds
  rw [hn] at count
  rw [hd] at dice
  rw [hs] at sides
  refine ⟨?_, ⟨count.ne_nil, fun _ hc ↦ (count.form (by decide)).isDigit_of_mem hc⟩,
    sides.ne_nil, fun _ hc ↦ (sides.form (by decide)).isDigit_of_mem hc⟩
  simp [NestedTerm.text, joined, (dice.form (by decide)).eq_of_dice]

/-- The first nested term of a text, looked for at every token. -/
def firstNested? (cs : List Char) : Option NestedTerm :=
  (Token.scan cs).tails.findSome? (nestedTerm? cs)

private theorem head?_nestedTermsOf (cs : List Char) (ts : List Token) :
    (nestedTermsOf cs ts).head? = ts.tails.findSome? (nestedTerm? cs) := by
  induction ts using nested_induction cs with
  | nil => rfl
  | pass o ts none ih =>
    rw [nestedTermsOf_of_none none, ih, List.tails, List.findSome?_cons, none]
  | jump o n d s rest found ih =>
    rw [nestedTermsOf_of_some found, List.tails, List.findSome?_cons, found, List.head?_cons]

/-- No term comes before the first one of the pass, and there is none if the pass finds none. -/
theorem firstNested?_eq_head? (cs : List Char) : firstNested? cs = (nestedTerms cs).head? :=
  (head?_nestedTermsOf cs (scan cs)).symm

/-- A text is read literally if no token begins a nested term. -/
theorem parseLiteral_eq (text : String) :
    parseLiteral text =
      match firstNested? text.toList with
      | some t => .error ⟨.nestedDice, t.span, t.text⟩
      | none => parse text := by
  rw [firstNested?_eq_head?, parseLiteral]
  cases nestedTerms text.toList <;> rfl

/-- Whether marks go on so that a dice term before them would be cut in two. -/
def Continues : List Mark → Prop
  | [] => False
  | m :: _ => m.touches = true ∧ continuesTerm m.text = true

/-- Whether marks begin with pieces of the given kinds without gaps, and do not go on as one
term. -/
def Takes : List TokenKind → List Mark → Prop
  | [], ms => ¬Continues ms
  | _ :: _, [] => False
  | k :: ks, m :: ms => m.touches = true ∧ m.kind = k ∧ Takes ks ms

/-- Whether a kind is that of an operator, and the marks after it begin with a dice term. -/
def Nests (k : TokenKind) (ms : List Mark) : Prop :=
  opensNested k = true ∧ Takes [.integer, .dice, .integer] ms

/-- Whether an operator with a dice term right after it stands somewhere. -/
def HoldsNested : List Mark → Prop := Somewhere fun m ms ↦ Nests m.kind ms

private theorem continuesTerm_separator {c : Char} (h : isSeparator c = true) (s : List Char) :
    continuesTerm (c :: s) = false := by
  simp only [isSeparator, Bool.or_eq_true, decide_eq_true_eq] at h
  rcases h with ((rfl | rfl) | rfl) | rfl <;> simp only [continuesTerm] <;> decide

/-- Only the first character matters for whether a text continues a term. -/
theorem continuesTerm_congr {s s' : List Char} (h : s.head? = s'.head?) :
    continuesTerm s = continuesTerm s' := by
  cases s <;> cases s' <;> simp_all [continuesTerm]

/-- Whether a text continues a term is seen by its first mark. -/
theorem continuesTerm_iff (s : List Char) : continuesTerm s = true ↔ Continues (marksOf s) := by
  rcases marksOf_cases s with blank | ⟨before, k, p, s', rfl, blank, piece⟩
  · rw [marksOf_separators blank]
    cases s with
    | nil => simp [continuesTerm, Continues]
    | cons c s =>
      rw [continuesTerm_separator (blank c List.mem_cons_self)]
      simp [Continues]
  · rw [marksOf_piece blank piece]
    cases before with
    | nil =>
      obtain ⟨c, p, rfl⟩ := List.exists_cons_of_ne_nil piece.ne_nil
      simp [Continues, continuesTerm]
    | cons c before =>
      rw [List.cons_append, continuesTerm_separator (blank c List.mem_cons_self)]
      simp [Continues]

/-- A text that begins with `d` continues a term. -/
theorem continues_of_takes {s : List Char} {ks : List TokenKind}
    (h : Takes (.dice :: ks) (marksOf s)) : continuesTerm s = true := by
  rcases marksOf_cases s with blank | ⟨before, k, p, s', rfl, blank, piece⟩
  · rw [marksOf_separators blank] at h
    exact h.elim
  · rw [marksOf_piece blank piece] at h
    obtain ⟨touches, kind, _⟩ := h
    obtain rfl : k = .dice := kind
    obtain rfl := (piece.form (by decide)).eq_of_dice
    obtain rfl := List.isEmpty_iff.mp touches
    rfl

/-- A token and the three after it are a nested term exactly if their marks show one. -/
theorem nestedTerm?_eq_none_iff {o : Nat} {s : List Char} {t : Token}
    (h : Rest cs o s (t :: ts)) :
    nestedTerm? cs (t :: ts) = none ↔ ¬Nests t.kind (marks t.span.stop ts) := by
  match ts with
  | [] | [_] | [_, _] => simp [nestedTerm?, Nests, marks, Takes]
  | n :: d :: x :: rest =>
    obtain ⟨_, _, _, _, _, _, h⟩ := h.next
    obtain ⟨_, _, _, _, _, _, h⟩ := h.next
    obtain ⟨_, _, _, _, _, _, h⟩ := h.next
    obtain ⟨_, _, _, _, _, _, h⟩ := h.next
    have goes : continuesTerm (Text.dropBytes x.span.stop cs) = true ↔
        Continues (marks x.span.stop rest) := by
      rw [h.dropBytes, h.marks_eq, continuesTerm_iff]
    rw [nestedTerm?, ite_eq_right_iff]
    simp only [reduceCtorEq, imp_false, adjacent, Bool.and_eq_true, Bool.not_eq_true',
      decide_eq_true_eq, Nests, marks, Takes, ← goes, Bool.not_eq_true]
    refine not_congr ⟨?_, ?_⟩
    · rintro ⟨⟨⟨⟨⟨⟨⟨opens, count⟩, dice⟩, sides⟩, tn⟩, nd⟩, dx⟩, ends⟩
      exact ⟨opens, tn.symm, count, nd.symm, dice, dx.symm, sides, ends⟩
    · rintro ⟨opens, tn, count, nd, dice, dx, sides, ends⟩
      exact ⟨⟨⟨⟨⟨⟨⟨opens, count⟩, dice⟩, sides⟩, tn.symm⟩, nd.symm⟩, dx.symm⟩, ends⟩

/-- There are no nested terms exactly if the marks show none. -/
theorem nestedTermsOf_eq_nil_iff {o : Nat} {s : List Char} (h : Rest cs o s ts) :
    nestedTermsOf cs ts = [] ↔ ¬HoldsNested (marks o ts) := by
  rw [← List.head?_eq_none_iff, head?_nestedTermsOf]
  induction ts generalizing o s with
  | nil => simp [nestedTerm?, HoldsNested, Somewhere, marks]
  | cons t ts ih =>
    obtain ⟨_, _, _, _, _, _, rest⟩ := h.next
    rw [List.tails, List.findSome?_cons, marks, HoldsNested, Somewhere, not_or,
      ← nestedTerm?_eq_none_iff h, ← HoldsNested, ← ih rest]
    cases nestedTerm? cs (t :: ts) <;> simp

end DicePool.Expression
