import DicePool.Proofs.Equation.Matches

/-!
# The dice expressions of a text

The scan finds matches from left to right. Every count, `d` and sides without gaps between them
begins in a match; sides are cut off from it where the match has gone on to the count or the `d` as
a number or a method of its own.
-/

namespace DicePool.Equation

open Token Expression

/-- What the scan of tokens finds. -/
inductive Finds : List Token → List Term → Prop where
  | nil : Finds [] []
  | skip {t : Token} {ts : List Token} {found : List Term} :
      ¬startsTerm (t :: ts) = true → Finds ts found → Finds (t :: ts) found
  | take {used left more : List Token} {t : Term} {found : List Term} :
      contiguous (used ++ (left ++ more)) = used ++ left → Match t used left →
      Finds (left ++ more) found → Finds (used ++ (left ++ more)) (t :: found)

/-- A scan that succeeds goes on after every match. -/
theorem finds_of_termsFrom {stop : Nat} {ts : List Token} {found : List Term}
    (h : termsFrom stop 0 ts = .ok found) : Finds ts found := by
  induction hn : ts.length using Nat.strongRecOn generalizing ts found with
  | ind n ih =>
    subst hn
    cases ts with
    | nil =>
      obtain rfl : [] = found := Except.ok.inj h
      exact .nil
    | cons t ts =>
      rw [termsFrom] at h
      split at h
      · obtain ⟨⟨first, n⟩, read, h⟩ := bind_eq_ok.mp h
        obtain ⟨rest, read', h⟩ := bind_eq_ok.mp h
        cases h
        obtain ⟨used, left, more, tokens, run, rfl, m⟩ := match_of_term read
        have after : ts.drop (used.length - 1) = left ++ more := by
          obtain ⟨u, used, rfl⟩ := List.exists_cons_of_ne_nil m.ne_nil
          obtain ⟨rfl, rfl⟩ := List.cons.inj tokens
          simp
        have shorter : (left ++ more).length < (t :: ts).length := by
          have head := m.head
          simp only [tokens, List.length_append]
          omega
        simp only [termsFrom_covered stop (used.length - 1), after] at read'
        have goes := ih _ shorter read' rfl
        rw [tokens] at run ⊢
        exact .take run m goes
      · next starts => exact .skip starts (ih _ (Nat.lt_succ_self _) h rfl)

private theorem kinds_of_startsTerm {n d s : Token} {after : List Token}
    (h : startsTerm (n :: d :: s :: after) = true) :
    d.kind = .dice ∧ (s.kind = .integer ∨ s.kind = .faceList) ∧ d.span.stop = s.span.start := by
  simp only [startsTerm, Bool.and_eq_true, Bool.or_eq_true, decide_eq_true_eq, adjacent] at h
  exact ⟨h.1.1.1.2, h.1.1.2, h.2⟩

/-- Sides right after a match that ends in `d` are a face list. -/
private theorem kind_of_sides_after {t : Term} {init left more after : List Token} {d s : Token}
    (m : Match t (init ++ [d]) left) (run : contiguous (init ++ [d] ++ (left ++ more)) =
      init ++ [d] ++ left) (rest : left ++ more = s :: after) (dice : d.kind = .dice)
    (sides : s.kind = .integer ∨ s.kind = .faceList) (touch : d.span.stop = s.span.start) :
    s.kind = .faceList := by
  have stop := m.gapless.stop_getLast (t := d) (by simp)
  have gapless : Gapless t.span.start s.span.stop (init ++ [d] ++ [s]) :=
    gapless_append.mpr ⟨_, m.gapless, (touch.symm.trans stop), rfl⟩
  have front := prefix_contiguous after gapless
  rw [List.append_assoc _ [s], List.singleton_append, ← rest, run,
    List.prefix_append_right_inj] at front
  obtain ⟨left, rfl⟩ := front
  refine sides.resolve_left fun integer ↦ m.last d (by simp) dice ?_
  exact Grammar.starts_cons.mpr (by simp [integer])

/-- How far a count, `d` and sides without gaps lie in a term that holds the count: to the sides, to
the count alone, or to the `d` if the sides are a face list. -/
def Holds (t : Term) (n d s : Token) : Prop :=
  t.span.start ≤ n.span.start ∧ n.span.stop ≤ t.span.stop ∧
    (s.span.stop ≤ t.span.stop ∨ t.span.stop = n.span.stop ∨
      t.span.stop = d.span.stop ∧ s.kind = .faceList)

/-- A match that reaches the count of a count, `d` and sides holds it. -/
private theorem holds_of_match {t : Term} {before c left more after : List Token} {n d s : Token}
    (m : Match t (before ++ c) left)
    (run : contiguous (before ++ c ++ (left ++ more)) = before ++ c ++ left)
    (extent : ∀ x ∈ before ++ c, x.span.start < x.span.stop)
    (starts : startsTerm (n :: d :: s :: after) = true)
    (same : n :: d :: s :: after = c ++ (left ++ more)) (ne : c ≠ []) : Holds t n d s := by
  have bound := (m.gapless.bounds extent).2
  match c, ne with
  | [n'], _ =>
    obtain ⟨rfl, _⟩ := List.cons.inj same
    have stop := m.gapless.stop_getLast (t := n) (by simp)
    obtain ⟨begins, ends⟩ := bound n (by simp)
    exact ⟨begins, ends, .inr (.inl stop.symm)⟩
  | [n', d'], _ =>
    obtain ⟨rfl, same₁⟩ := List.cons.inj same
    obtain ⟨rfl, same₂⟩ := List.cons.inj same₁
    obtain ⟨dice, sides, touch⟩ := kinds_of_startsTerm starts
    have stop := m.gapless.stop_getLast (t := d) (by simp)
    have assoc : before ++ [n, d] = before ++ [n] ++ [d] := by simp
    obtain ⟨begins, ends⟩ := bound n (by simp)
    rw [assoc] at m run
    exact ⟨begins, ends,
      .inr (.inr ⟨stop.symm, kind_of_sides_after m run same₂.symm dice sides touch⟩)⟩
  | n' :: d' :: s' :: c, _ =>
    obtain ⟨rfl, same₁⟩ := List.cons.inj same
    obtain ⟨rfl, same₂⟩ := List.cons.inj same₁
    obtain ⟨rfl, _⟩ := List.cons.inj same₂
    obtain ⟨begins, ends⟩ := bound n (by simp)
    exact ⟨begins, ends, .inl (bound s (by simp)).2⟩

namespace Finds

variable {ts : List Token} {found : List Term}

/-- Every term that is found is a match of some of the tokens. -/
theorem exists_match (h : Finds ts found) {t : Term} (ht : t ∈ found) :
    ∃ before used left more, ts = before ++ (used ++ (left ++ more)) ∧
      contiguous (used ++ (left ++ more)) = used ++ left ∧ Match t used left := by
  induction h with
  | nil => contradiction
  | @skip x ts found _ _ ih =>
    obtain ⟨before, used, left, more, rfl, run, m⟩ := ih ht
    exact ⟨x :: before, used, left, more, rfl, run, m⟩
  | @take used left more first found run m _ ih =>
    rcases List.mem_cons.mp ht with rfl | ht
    · exact ⟨[], used, left, more, rfl, run, m⟩
    · obtain ⟨before, used', left', more', same, run', m'⟩ := ih ht
      exact ⟨used ++ before, used', left', more', by rw [same, List.append_assoc], run', m'⟩

variable (extent : ∀ t ∈ ts, t.span.start < t.span.stop)
  (ascending : ts.Pairwise fun t t' ↦ t.span.stop ≤ t'.span.start)

include extent ascending

/-- A term ends before the next one begins. -/
theorem pairwise (h : Finds ts found) :
    found.Pairwise fun a b ↦ a.span.stop ≤ b.span.start := by
  induction h with
  | nil => exact .nil
  | skip _ _ ih =>
    exact ih (fun t ht ↦ extent t (List.mem_cons_of_mem _ ht)) (List.pairwise_cons.mp ascending).2
  | @take used left more first found _ m rest ih =>
    obtain ⟨_, after, across⟩ := List.pairwise_append.mp ascending
    refine List.pairwise_cons.mpr ⟨fun t ht ↦ ?_, ih (fun t ht ↦ extent t (by simp [ht])) after⟩
    obtain ⟨before, used', left', more', same, _, m'⟩ := rest.exists_match ht
    obtain ⟨last, hl, stop⟩ := m.exists_last
    obtain ⟨next, hn, start⟩ := m'.exists_first
    have apart := across last hl next (by rw [same]; simp [hn])
    omega

/-- The count of a count, `d` and sides without gaps lies in a match. -/
theorem complete (h : Finds ts found) {before after : List Token} {n d s : Token}
    (hts : ts = before ++ n :: d :: s :: after) (starts : startsTerm (n :: d :: s :: after) = true) :
    ∃ t ∈ found, Holds t n d s := by
  induction h generalizing before with
  | nil => simp at hts
  | @skip x ts found no _ ih =>
    cases before with
    | nil =>
      rw [List.nil_append] at hts
      exact absurd starts (hts ▸ no)
    | cons y before =>
      obtain ⟨rfl, same⟩ := List.cons.inj hts
      exact ih (fun t ht ↦ extent t (List.mem_cons_of_mem _ ht))
        (List.pairwise_cons.mp ascending).2 same
  | @take used left more first found run m _ ih =>
    -- what stands after the match is searched further
    have later {c : List Token} (same : left ++ more = c ++ n :: d :: s :: after) :
        ∃ t ∈ first :: found, Holds t n d s := by
      obtain ⟨t, ht, holds⟩ := ih (fun x hx ↦ extent x (by simp [hx]))
        (List.pairwise_append.mp ascending).2.1 same
      exact ⟨t, List.mem_cons_of_mem _ ht, holds⟩
    rcases List.append_eq_append_iff.mp hts with ⟨c, rfl, same⟩ | ⟨c, rfl, same⟩
    · exact later same
    · by_cases none : c = []
      · subst none
        have rest : left ++ more = [] ++ n :: d :: s :: after := same.symm
        exact later rest
      · exact ⟨first, List.mem_cons_self,
          holds_of_match m run (fun x hx ↦ extent x (List.mem_append_left _ hx)) starts same none⟩

end Finds

private theorem term_of_gapless {stop : Nat} {t : Token} {ts : List Token} {spec : Spec}
    (h : parseTokens stop (t :: ts) = .ok (spec, [])) (gapless : Gapless 0 stop (t :: ts)) :
    term stop (t :: ts) = .ok (⟨joined (t :: ts), spec, ⟨0, stop⟩⟩, (t :: ts).length) := by
  have front := prefix_contiguous [] gapless
  rw [List.append_nil] at front
  have run := (contiguous_prefix_self (t :: ts)).eq_of_length
    (Nat.le_antisymm (contiguous_prefix_self (t :: ts)).length_le front.length_le)
  have start : t.span.start = 0 := gapless.1
  have last : ((t :: ts).getLast?.map fun t ↦ t.span.stop).getD stop = stop := by
    cases hl : (t :: ts).getLast? with
    | none => rfl
    | some last => exact gapless.stop_getLast hl
  simp only [term, run, h, bind, Except.bind, List.length_nil, Nat.sub_zero, List.take_length,
    List.head?_cons, Option.map_some, Option.getD_some, start, last]
  rfl

/-- An expression without gaps is found as a whole. -/
theorem terms_of_parse {text : String} {spec : Spec} (h : parse text = .ok spec)
    (gapless : Gapless 0 (Text.byteLength text.toList) (scan text.toList)) :
    terms text = .ok [⟨text, spec, ⟨0, Text.byteLength text.toList⟩⟩] := by
  rw [Grammar.parse_eq_ok_iff_parseTokens] at h
  obtain ⟨n, d, s, rest, _, _, _, tokens, hn, hd, hs, _⟩ := Grammar.parseTokens_eq_ok.mp h
  change termsFrom _ 0 (scan text.toList) = _
  rw [tokens] at h gapless ⊢
  have starts : startsTerm (n :: d :: s :: rest) = true := by
    obtain ⟨_, nd, ds, _⟩ := gapless
    have sides := Grammar.kind_of_sides hs
    simp [startsTerm, adjacent, hn, hd, sides, nd, ds]
  have whole : joined (n :: d :: s :: rest) = text := by
    have row : scan text.toList = [] ++ (n :: d :: s :: rest ++ []) := by simpa using tokens
    obtain ⟨before, after, same, start, stop, _⟩ :=
      scan_gapless row gapless (List.cons_ne_nil _ _)
    obtain rfl := Text.byteLength_eq_zero_iff.mp start.symm
    have none : Text.byteLength after = 0 := by
      rw [same, Text.byteLength_append, Text.byteLength_append] at stop
      simp only [Text.byteLength] at stop
      omega
    rw [Text.byteLength_eq_zero_iff.mp none] at same
    rw [joined, ← String.toList_inj, same]
    simp
  have after (stop : Nat) :
      termsFrom stop ((n :: d :: s :: rest).length - 1) (d :: s :: rest) = .ok [] := by
    rw [termsFrom_covered, List.drop_of_length_le (by simp), termsFrom]
  rw [termsFrom, if_pos starts, term_of_gapless h gapless]
  simp only [bind, Except.bind, after, whole]
  rfl

/-- What a term of a text is: a row of tokens without gaps, read as it is read on its own, and the
longest such row from its start. -/
structure Term.Maximal (t : Term) (text : String) : Prop where
  nonempty : t.span.start < t.span.stop
  slice : t.text.toList = Text.slice text.toList t.span
  gapless : Gapless 0 (Text.byteLength t.text.toList) (scan t.text.toList)
  parse : parse t.text = .ok t.spec
  longest : ∀ before run after stop, scan text.toList = before ++ (run ++ after) →
    Gapless t.span.start stop run → t.span.stop < stop →
    ∀ spec, Expression.parse (joined run) ≠ .ok spec

/-- Every term of a text is the longest from its start. -/
theorem maximal_of_terms {text : String} {found : List Term} (h : terms text = .ok found) :
    ∀ t ∈ found, t.Maximal text := by
  intro t ht
  obtain ⟨before, used, left, more, tokens, run, m⟩ := (finds_of_termsFrom h).exists_match ht
  obtain ⟨slice, nonempty⟩ := m.text_eq_slice tokens
  exact ⟨nonempty, slice, m.gapless_scan tokens, m.parse_text_eq tokens,
    fun _ _ _ _ tokens' gapless longer _ ↦ m.maximal tokens run tokens' gapless longer⟩

/-- The scan finds exactly the dice expressions of a text. The terms follow each other without
overlap and each goes as far as the grammar allows. The count of every count, `d` and sides without
gaps lies in a term; the sides do as well, unless the term has taken the count as its last number,
or the `d` before a face list as its last method. An expression without gaps is found as a whole. -/
theorem terms_exact (text : String) :
    (∀ found, terms text = .ok found →
      (∀ t ∈ found, t.Maximal text) ∧
      (found.Pairwise fun a b ↦ a.span.stop ≤ b.span.start) ∧
      ∀ before n d s after, scan text.toList = before ++ n :: d :: s :: after →
        n.kind = .integer → d.kind = .dice → (s.kind = .integer ∨ s.kind = .faceList) →
        n.span.stop = d.span.start → d.span.stop = s.span.start →
        ∃ t ∈ found, t.span.start ≤ n.span.start ∧ n.span.stop ≤ t.span.stop ∧
          (s.span.stop ≤ t.span.stop ∨ t.span.stop = n.span.stop ∨
            t.span.stop = d.span.stop ∧ s.kind = .faceList)) ∧
    ∀ spec, parse text = .ok spec →
      Gapless 0 (Text.byteLength text.toList) (scan text.toList) →
      terms text = .ok [⟨text, spec, ⟨0, Text.byteLength text.toList⟩⟩] := by
  refine ⟨fun found h ↦ ?_, fun spec ↦ terms_of_parse⟩
  obtain ⟨bounds, ascending⟩ := span_of_mem_scanFrom (rfl : scanFrom 0 0 text.toList = _)
  have extent : ∀ t ∈ scan text.toList, t.span.start < t.span.stop := fun t ht ↦ (bounds t ht).2
  have finds := finds_of_termsFrom h
  refine ⟨maximal_of_terms h, finds.pairwise extent ascending, ?_⟩
  intro before n d s after tokens hn hd hs nd ds
  have starts : startsTerm (n :: d :: s :: after) = true := by
    simp [startsTerm, adjacent, hn, hd, hs, nd, ds]
  exact finds.complete extent ascending tokens starts

/-- An attack and, after a gap, its damage are two terms, the longest from their starts. -/
theorem terms_exact_attackDamage :
    ∃ a b, terms "1d20+5 + 2d6" = .ok [a, b] ∧ a.span = ⟨0, 6⟩ ∧ b.span = ⟨9, 12⟩ ∧
      a.Maximal "1d20+5 + 2d6" ∧ b.Maximal "1d20+5 + 2d6" := by
  obtain ⟨a, b, found, ha, hb⟩ :
      ∃ a b, terms "1d20+5 + 2d6" = .ok [a, b] ∧ a.span = ⟨0, 6⟩ ∧ b.span = ⟨9, 12⟩ :=
    ⟨_, _, rfl, rfl, rfl⟩
  obtain ⟨maximal, _⟩ := (terms_exact "1d20+5 + 2d6").1 _ found
  exact ⟨a, b, found, ha, hb, maximal a (by simp), maximal b (by simp)⟩

/-- Not every count, `d` and sides lie in a term: the count can be the last number of the term
before. -/
theorem not_forall_head_in_term :
    ¬∀ (text : String) (found : List Term), terms text = .ok found →
      ∀ before n d s after, scan text.toList = before ++ n :: d :: s :: after →
        startsTerm (n :: d :: s :: after) = true →
        ∃ t ∈ found, t.span.start ≤ n.span.start ∧ s.span.stop ≤ t.span.stop := by
  intro all
  obtain ⟨found, hf, short⟩ : ∃ found, terms "1d6+1+1d6" = .ok found ∧
      ∀ t ∈ found, t.span.stop = 7 := ⟨_, rfl, by decide⟩
  obtain ⟨t, ht, _, inside⟩ := all "1d6+1+1d6" found hf
    [⟨.integer, ⟨0, 1⟩, ['1']⟩, ⟨.dice, ⟨1, 2⟩, ['d']⟩, ⟨.integer, ⟨2, 3⟩, ['6']⟩,
      ⟨.plus, ⟨3, 4⟩, ['+']⟩, ⟨.integer, ⟨4, 5⟩, ['1']⟩, ⟨.plus, ⟨5, 6⟩, ['+']⟩]
    ⟨.integer, ⟨6, 7⟩, ['1']⟩ ⟨.dice, ⟨7, 8⟩, ['d']⟩ ⟨.integer, ⟨8, 9⟩, ['6']⟩ [] (by decide)
    (by decide)
  have stop := short t ht
  simp only at inside
  omega

end DicePool.Equation
