import DicePool.Proofs.Expression.Nested
import DicePool.Proofs.Expression.Relabel
import DicePool.Proofs.Token.Written

/-!
# Writing numbers in the places of nested dice

A text with numbers in the places of its nested dice terms has the tokens of the text, with one
number for the three tokens of each term. Nothing grows together: an operator stands before each
number, and no digit after it. So the numbers do not matter for what an expression shows and which
modifiers it has.
-/

namespace DicePool.Expression

open Token

variable {cs : List Char} {ts : List Token} {news : List (List Char)}

/-- The tokens of a text with each nested term replaced by the next number. -/
def rewritten (cs : List Char) :
    List Token → List (List Char) → List (TokenKind × List Char)
  | o :: n :: d :: s :: rest, news =>
    match nestedTerm? cs (o :: n :: d :: s :: rest) with
    | some _ => lexeme o :: (.integer, news.headD []) :: rewritten cs rest news.tail
    | none => lexeme o :: rewritten cs (n :: d :: s :: rest) news
  | ts, _ => ts.map lexeme

private theorem rewritten_cons_eq {o n d s : Token} {rest : List Token} :
    rewritten cs (o :: n :: d :: s :: rest) news =
      match nestedTerm? cs (o :: n :: d :: s :: rest) with
      | some _ => lexeme o :: (.integer, news.headD []) :: rewritten cs rest news.tail
      | none => lexeme o :: rewritten cs (n :: d :: s :: rest) news := (rfl)

private theorem rewritten_of_some {o n d s : Token} {rest : List Token} {t : NestedTerm}
    (h : nestedTerm? cs (o :: n :: d :: s :: rest) = some t) :
    rewritten cs (o :: n :: d :: s :: rest) news =
      lexeme o :: (.integer, news.headD []) :: rewritten cs rest news.tail := by
  rw [rewritten_cons_eq, h]

private theorem rewritten_of_none {o : Token} (h : nestedTerm? cs (o :: ts) = none) :
    rewritten cs (o :: ts) news = lexeme o :: rewritten cs ts news := by
  match ts with
  | [] | [_] | [_, _] => rfl
  | n :: d :: s :: rest => rw [rewritten_cons_eq, h]

/-- The edits that write numbers in the places of nested terms. -/
def nestedEdits (terms : List NestedTerm) (news : List (List Char)) : List (Span × List Char) :=
  (terms.map NestedTerm.span).zip news

private theorem nestedEdits_cons (t : NestedTerm) (terms : List NestedTerm) (w : List Char) :
    nestedEdits (t :: terms) (w :: news) = (t.span, w) :: nestedEdits terms news := rfl

/-- The edits of a text stand where its tokens do. -/
private theorem bounds_of_nestedEdits {o : Nat} {s : List Char} (h : scanFrom 0 o s = ts) :
    ∀ e ∈ (nestedEdits (nestedTermsOf cs ts) news).head?,
      o ≤ e.1.start ∧ e.1.start ≤ e.1.stop := by
  rintro ⟨span, w⟩ he
  obtain ⟨t, ht, rfl⟩ := List.mem_map.mp (List.of_mem_zip (List.mem_of_mem_head? he)).1
  obtain ⟨before, rest, rfl, found⟩ := exists_of_mem_nestedTermsOf ht
  obtain ⟨_, _, _, _, _, _, nd, ds⟩ := nestedTerm?_eq_some found
  obtain ⟨bounds, _⟩ := span_of_mem_scanFrom h
  have count := bounds t.count (by simp)
  have dice := bounds t.dice (by simp)
  have sides := bounds t.sides (by simp)
  simp only [NestedTerm.span]
  omega

/-- How the text `s` with the tokens `ts` ahead, which begins at a position, becomes `s'` by edits
that write numbers: a token that begins no nested term stays, and the number for a nested term
comes right after its operator. -/
inductive Rewrites (cs : List Char) :
    Nat → List Token → List (Span × List Char) → List Char → List Char → Prop
  | stop {o : Nat} {s : List Char} (blank : ∀ c ∈ s, isSeparator c = true) :
      Rewrites cs o [] [] s s
  | keep {o : Nat} {t : Token} {ts : List Token} {edits : List (Span × List Char)}
      {before s s' : List Char} (none : nestedTerm? cs (t :: ts) = none)
      (plain : ¬Nests t.kind (marksOf s)) (blank : ∀ c ∈ before, isSeparator c = true)
      (piece : Piece t.kind t.text s)
      (rest : Rewrites cs (o + Text.byteLength (before ++ t.text)) ts edits s s') :
      Rewrites cs o (t :: ts) edits (before ++ (t.text ++ s)) (before ++ (t.text ++ s'))
  | write {o : Nat} {t n d x : Token} {ts : List Token} {edits : List (Span × List Char)}
      {before old w s s' : List Char}
      (found : nestedTerm? cs (t :: n :: d :: x :: ts) = some ⟨t, n, d, x⟩)
      (ends : continuesTerm s = false) (number : ∀ c ∈ s.head?, c.isDigit = false)
      (digit : ∃ a ∈ old.head?, a.isDigit = true) (ne : w ≠ []) (digits : ∀ c ∈ w, c.isDigit = true)
      (blank : ∀ c ∈ before, isSeparator c = true) (piece : Piece t.kind t.text (old ++ s))
      (rest : Rewrites cs (o + Text.byteLength (before ++ t.text ++ old)) ts edits s s') :
      Rewrites cs o (t :: n :: d :: x :: ts)
        ((⟨o + Text.byteLength (before ++ t.text),
          o + Text.byteLength (before ++ t.text ++ old)⟩, w) :: edits)
        (before ++ (t.text ++ (old ++ s))) (before ++ (t.text ++ (w ++ s')))

namespace Rewrites

variable {o : Nat} {edits : List (Span × List Char)} {s s' old w : List Char}

/-- What stands before a number sees no difference. -/
private theorem unseen_number (digit : ∃ a ∈ old.head?, a.isDigit = true) (ne : w ≠ [])
    (digits : ∀ c ∈ w, c.isDigit = true) (s s' : List Char) : Unseen (old ++ s) (w ++ s') := by
  obtain ⟨a, ha, digit⟩ := digit
  obtain ⟨rest, rfl⟩ := List.head?_eq_some_iff.mp ha
  obtain ⟨b, rest', rfl⟩ := List.exists_cons_of_ne_nil ne
  exact unseen_of_digit digit (.inl (classOf_eq_digit_iff.mpr (digits b List.mem_cons_self)))

/-- What stands before a rewritten text sees no difference. -/
theorem shares (h : Rewrites cs o ts edits s s') : Shares s s' := by
  induction h with
  | stop => exact .refl _
  | keep _ _ _ _ _ ih => exact (ih.append_left _).append_left _
  | write _ _ _ digit ne digits _ piece _ _ =>
    exact (unseen_number digit ne digits _ _ _ _ piece).2.append_left _

/-- The rewritten text has the tokens of the text, with the numbers among them. -/
theorem map_lexeme (h : Rewrites cs o ts edits s s') (p : Nat) :
    (scanFrom 0 p s').map lexeme = rewritten cs ts (edits.map Prod.snd) := by
  induction h generalizing p with
  | stop blank => rw [scanFrom_eq_nil_iff.mpr blank]; rfl
  | keep none _ blank piece rest ih =>
    rw [scanFrom_separators blank, scanFrom_piece (piece.shares rest.shares), List.map_cons, ih,
      rewritten_of_none none]
    rfl
  | @write _ _ _ _ _ _ _ _ _ _ s s' found _ number digit ne digits blank piece rest ih =>
    have operator := (unseen_number digit ne digits s s' _ _ piece).1
    have written := Piece.of_digits ne digits (rest.shares.head?_eq ▸ number)
    rw [scanFrom_separators blank, scanFrom_piece operator, scanFrom_piece written, List.map_cons,
      List.map_cons, ih, rewritten_of_some found]
    rfl

/-- Where a nested term is ahead, its operator and then the term stand behind separators. -/
theorem exists_nested {t n d x : Token} (h : Rest cs o s (t :: n :: d :: x :: ts))
    (found : nestedTerm? cs (t :: n :: d :: x :: ts) = some ⟨t, n, d, x⟩) :
    ∃ before after, s = before ++ (t.text ++ ([n, d, x].flatMap text ++ after)) ∧
      (∀ c ∈ before, isSeparator c = true) ∧ Pieces after [t, n, d, x] ∧
      n.span.start = o + Text.byteLength (before ++ t.text) ∧
      x.span.stop = o + Text.byteLength (before ++ t.text ++ [n, d, x].flatMap text) ∧
      continuesTerm after = false ∧ Rest cs x.span.stop after ts := by
  obtain ⟨_, _, _, _, _, tn, nd, dx⟩ := nestedTerm?_eq_some found
  have nests := not_not.mp (mt (nestedTerm?_eq_none_iff h).mpr (by simp [found]))
  obtain ⟨_, _, _, _, _, _, _, ends⟩ := nests
  obtain ⟨before, s, rfl, blank, piece, span, rest⟩ := h.next
  have gapless : Gapless t.span.stop x.span.stop [n, d, x] := ⟨tn.symm, nd.symm, dx.symm, rfl⟩
  have behind : Rest cs t.span.stop s ([n, d, x] ++ ts) := rest
  obtain ⟨after, rfl, stop, pieces, rest⟩ := behind.row gapless
  rw [rest.marks_eq, Takes, ← continuesTerm_iff, Bool.not_eq_true] at ends
  refine ⟨before, after, rfl, blank, ⟨piece, pieces⟩, by rw [← tn, span], ?_, ends, rest⟩
  rw [stop, span, Text.byteLength_append (before ++ t.text), Nat.add_assoc]

/-- Writing numbers for the nested terms of a text rewrites it. -/
theorem of_splice (h : Rest cs o s ts) {news : List (List Char)}
    (hl : news.length = (nestedTermsOf cs ts).length)
    (hw : ∀ w ∈ news, w ≠ [] ∧ ∀ c ∈ w, c.isDigit = true) :
    Rewrites cs o ts (nestedEdits (nestedTermsOf cs ts) news) s
      (Text.spliceFrom o s (nestedEdits (nestedTermsOf cs ts) news)) := by
  induction ts using nested_induction cs generalizing o s news with
  | nil =>
    obtain rfl := List.length_eq_zero_iff.mp hl
    exact .stop (scanFrom_eq_nil_iff.mp h.scanned)
  | pass t ts none ih =>
    have plain := (nestedTerm?_eq_none_iff h).mp none
    obtain ⟨before, s, rfl, blank, piece, span, rest⟩ := h.next
    have stop : t.span.stop = o + Text.byteLength (before ++ t.text) := by rw [span]
    rw [nestedTermsOf_of_none none] at hl ⊢
    rw [rest.marks_eq] at plain
    rw [← List.append_assoc, Text.spliceFrom_append (stop ▸ bounds_of_nestedEdits rest.scanned),
      ← stop, List.append_assoc, List.append_assoc]
    exact .keep none plain blank piece (stop ▸ ih rest hl hw)
  | jump t n d x ts found ih =>
    obtain ⟨_, _, hn, _, hx, _⟩ := nestedTerm?_eq_some found
    rw [nestedTermsOf_of_some found] at hl ⊢
    cases news with
    | nil => contradiction
    | cons w news =>
      rw [List.forall_mem_cons] at hw
      obtain ⟨before, after, rfl, blank, ⟨piece, count, _, sides, _⟩, start, stop, ends, rest⟩ :=
        exists_nested h found
      rw [hn] at count
      rw [hx, List.flatMap_nil, List.nil_append] at sides
      have digit : ∃ a ∈ ([n, d, x].flatMap text).head?, a.isDigit = true := by
        obtain ⟨a, old, same⟩ := List.exists_cons_of_ne_nil count.ne_nil
        exact ⟨a, by simp [same], (count.form (by decide)).isDigit_of_mem (by simp [same])⟩
      have rewrites := ih rest (Nat.succ.inj hl) hw.2
      have step := write found ends (fun _ hc ↦ sides.not_digit hc) digit hw.1.1 hw.1.2 blank piece
        (stop ▸ rewrites)
      rw [nestedEdits_cons, NestedTerm.span, start, stop, ← List.append_assoc, ← List.append_assoc,
        Text.spliceFrom_edit]
      simpa only [List.append_assoc] using step

/-- Only the numbers are written, in the places of the terms. -/
theorem replaced (h : Rewrites cs o ts edits s s') : Text.Replaced o s edits s' := by
  induction h with
  | stop => exact .stay _ _
  | keep none _ _ _ _ ih =>
    rw [← List.append_assoc, ← List.append_assoc]
    exact ih.append_left _
  | @write _ _ _ _ _ _ _ _ _ w _ _ _ _ _ _ _ _ _ _ _ ih =>
    have step := Text.Replaced.write w ih
    simpa only [List.append_assoc] using step

/-- What begins as a dice term in the rewritten text did so in the text. -/
private theorem takes {ks : List TokenKind} (h : Rewrites cs o ts edits s s')
    (plain : ∀ k ∈ ks, opensNested k = false) (ht : Takes ks (marksOf s')) :
    Takes ks (marksOf s) := by
  induction ks generalizing o ts edits s s' with
  | nil =>
    rw [Takes, ← continuesTerm_iff] at ht ⊢
    rwa [continuesTerm_congr h.shares.head?_eq]
  | cons k ks ih =>
    rw [List.forall_mem_cons] at plain
    cases h with
    | stop => exact ht
    | keep none _ blank piece rest =>
      rw [marksOf_piece blank (piece.shares rest.shares)] at ht
      rw [marksOf_piece blank piece]
      exact ⟨ht.1, ht.2.1, ih rest plain.2 ht.2.2⟩
    | @write _ t _ _ _ _ _ _ _ _ _ _ found _ _ digit ne digits blank piece rest =>
      -- the number comes after an operator, which begins no term
      rw [marksOf_piece blank (unseen_number digit ne digits _ _ _ _ piece).1] at ht
      have kind : t.kind = k := ht.2.1
      have opens := (nestedTerm?_eq_some found).2.1
      rw [kind, plain.1] at opens
      contradiction

/-- No nested terms are left in the rewritten text. -/
theorem not_holdsNested (h : Rewrites cs o ts edits s s') : ¬HoldsNested (marksOf s') := by
  induction h with
  | stop blank =>
    rw [marksOf_separators blank]
    exact id
  | keep none plain blank piece rest ih =>
    rw [marksOf_piece blank (piece.shares rest.shares)]
    rintro (⟨opens, term⟩ | later)
    · exact plain ⟨opens, rest.takes (by decide) term⟩
    · exact ih later
  | @write _ _ _ _ _ _ _ _ _ _ s s' found ends number digit ne digits blank piece rest ih =>
    have operator := (unseen_number digit ne digits s s' _ _ piece).1
    have written := Piece.of_digits ne digits (rest.shares.head?_eq ▸ number)
    rw [marksOf_piece blank operator, marksOf_append_piece written]
    rintro (⟨_, _, _, term⟩ | ⟨opens, _⟩ | later)
    · -- the number is no count: nothing after the term makes it one
      have continued := continues_of_takes (rest.takes (by decide) term)
      rw [ends] at continued
      contradiction
    · contradiction
    · exact ih later

end Rewrites

/-- A text with numbers in the places of its nested terms has these numbers among its tokens. -/
theorem map_lexeme_scan_splice (hl : news.length = (nestedTerms cs).length)
    (hw : ∀ w ∈ news, w ≠ [] ∧ ∀ c ∈ w, c.isDigit = true) :
    (scan (Text.splice cs (nestedEdits (nestedTerms cs) news))).map lexeme =
      rewritten cs (scan cs) news := by
  have rewrites := Rewrites.of_splice (.whole cs) hl hw
  have numbers : (nestedEdits (nestedTerms cs) news).map Prod.snd = news :=
    List.map_snd_zip (by simp [hl])
  exact (rewrites.map_lexeme 0).trans (congrArg (rewritten cs (scan cs)) numbers)

/-- Writing numbers for the nested terms of a text changes nothing else. -/
theorem replaced_splice (hl : news.length = (nestedTerms cs).length)
    (hw : ∀ w ∈ news, w ≠ [] ∧ ∀ c ∈ w, c.isDigit = true) :
    Text.Replaced 0 cs (nestedEdits (nestedTerms cs) news)
      (Text.splice cs (nestedEdits (nestedTerms cs) news)) :=
  (Rewrites.of_splice (.whole cs) hl hw).replaced

/-- A text with numbers in the places of its nested terms has no nested terms. -/
theorem nestedTerms_splice (hl : news.length = (nestedTerms cs).length)
    (hw : ∀ w ∈ news, w ≠ [] ∧ ∀ c ∈ w, c.isDigit = true) :
    nestedTerms (Text.splice cs (nestedEdits (nestedTerms cs) news)) = [] := by
  apply (nestedTermsOf_eq_nil_iff (.whole _)).mpr
  rw [(Rest.whole _).marks_eq]
  exact (Rewrites.of_splice (.whole cs) hl hw).not_holdsNested

/-- The numbers do not change the kinds of the tokens. -/
theorem map_fst_rewritten (cs : List Char) (ts : List Token) (news news' : List (List Char)) :
    (rewritten cs ts news).map Prod.fst = (rewritten cs ts news').map Prod.fst := by
  induction ts using nested_induction cs generalizing news news' with
  | nil => rfl
  | pass o ts none ih =>
    rw [rewritten_of_none none, rewritten_of_none none, List.map_cons, List.map_cons, ih news news']
  | jump o n d s rest found ih =>
    rw [rewritten_of_some found, rewritten_of_some found]
    simp only [List.map_cons, ih news.tail news'.tail]

/-- The first token stays. -/
theorem head?_rewritten : (rewritten cs ts news).head? = ts.head?.map lexeme := by
  induction ts using nested_induction cs with
  | nil => rfl
  | pass o ts none _ => rw [rewritten_of_none none]; rfl
  | jump o n d s rest found _ => rw [rewritten_of_some found]; rfl

/-- A token after which no term is nested stays before all others. -/
theorem rewritten_cons {o : Token} (h : opensNested o.kind = false) :
    rewritten cs (o :: ts) news = lexeme o :: rewritten cs ts news := by
  refine rewritten_of_none ?_
  match ts with
  | [] | [_] | [_, _] => rfl
  | n :: d :: s :: rest => simp [nestedTerm?, h]

/-- A head stays: the numbers stand behind operators, which come after it. -/
theorem exists_sides_of_rewritten {a b x : TokenKind × List Char}
    {xs : List (TokenKind × List Char)}
    (h : rewritten cs ts news = a :: b :: x :: xs) (ha : opensNested a.1 = false)
    (hb : opensNested b.1 = false) :
    ∃ count dice sides rest, ts = count :: dice :: sides :: rest ∧ lexeme sides = x := by
  have cons {a : TokenKind × List Char} {xs : List (TokenKind × List Char)} {ts : List Token}
      (h : rewritten cs ts news = a :: xs) : ∃ o ts', ts = o :: ts' ∧ lexeme o = a := by
    have first : ts.head?.map lexeme = some a := by rw [← head?_rewritten, h, List.head?_cons]
    obtain ⟨o, ho, same⟩ := Option.map_eq_some_iff.mp first
    obtain ⟨ts', rfl⟩ := List.head?_eq_some_iff.mp ho
    exact ⟨o, ts', rfl, same⟩
  obtain ⟨count, ts, rfl, rfl⟩ := cons h
  rw [rewritten_cons ha] at h
  obtain ⟨dice, ts, rfl, rfl⟩ := cons (List.cons.inj h).2
  rw [rewritten_cons hb] at h
  obtain ⟨sides, rest, rfl, same⟩ := cons (List.cons.inj (List.cons.inj h).2).2
  exact ⟨count, dice, sides, rest, rfl, same⟩

/-- The sides of a rewritten expression are those of the text. -/
private theorem sides_of_parse_splice {spec : Spec} (hl : news.length = (nestedTerms cs).length)
    (hw : ∀ w ∈ news, w ≠ [] ∧ ∀ c ∈ w, c.isDigit = true)
    (h : parse (String.ofList (Text.splice cs (nestedEdits (nestedTerms cs) news))) = .ok spec) :
    (scan (Text.splice cs (nestedEdits (nestedTerms cs) news)))[2]?.map lexeme =
      (scan cs)[2]?.map lexeme := by
  obtain ⟨count, dice, s, rest, _, _, _, tokens, hc, hd, _⟩ :=
    Grammar.parseTokens_eq_ok.mp (Grammar.parse_eq_ok_iff_parseTokens.mp h)
  rw [String.toList_ofList] at tokens
  have lexemes := map_lexeme_scan_splice hl hw
  rw [tokens] at lexemes ⊢
  obtain ⟨count', dice', s', rest', tokens', same⟩ :=
    exists_sides_of_rewritten lexemes.symm (by rw [lexeme, hc]; rfl) (by rw [lexeme, hd]; rfl)
  rw [tokens']
  exact congrArg some same.symm

/-- Whatever numbers are in the places of the nested terms: the expression shows the same faces and
has modifiers of the same kinds. -/
theorem shape_of_parse_splice {news' : List (List Char)} {spec spec' : Spec}
    (hl : news.length = (nestedTerms cs).length) (hl' : news'.length = (nestedTerms cs).length)
    (hw : ∀ w ∈ news, w ≠ [] ∧ ∀ c ∈ w, c.isDigit = true)
    (hw' : ∀ w ∈ news', w ≠ [] ∧ ∀ c ∈ w, c.isDigit = true)
    (h : parse (String.ofList (Text.splice cs (nestedEdits (nestedTerms cs) news))) = .ok spec)
    (h' : parse (String.ofList (Text.splice cs (nestedEdits (nestedTerms cs) news'))) = .ok spec') :
    spec.faces = spec'.faces ∧ ∀ k, spec.modifiers.contains k = spec'.modifiers.contains k := by
  have third := (sides_of_parse_splice hl hw h).trans (sides_of_parse_splice hl' hw' h').symm
  have kinds : (rewritten cs (scan cs) news).map Prod.fst =
      (rewritten cs (scan cs) news').map Prod.fst := map_fst_rewritten ..
  rw [← map_lexeme_scan_splice hl hw, ← map_lexeme_scan_splice hl' hw', List.map_map,
    List.map_map] at kinds
  rw [Grammar.parse_eq_ok_iff_parseTokens, String.toList_ofList] at h h'
  exact parseTokens_shape h h' kinds third

end DicePool.Expression
