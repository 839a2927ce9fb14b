import DicePool.Proofs.Expression.Meaning

/-!
# Reading a text as an expression

A text is an expression exactly if its tokens are a sentence of the grammar and the numbers of their
greedy reading are allowed, and then the expression is what this reading stands for.
-/

namespace DicePool.Grammar

open Expression

/-- An expected token is the first. -/
theorem expect_eq_ok {kind : TokenKind} {stop : Nat} {ts rest : List Token} {t : Token} :
    expect kind stop ts = .ok (t, rest) ↔ ts = t :: rest ∧ t.kind = kind := by
  cases ts with
  | nil => simp [expect]
  | cons t' ts =>
    by_cases hk : t'.kind = kind
    · simp only [expect, if_pos hk, Except.ok.injEq, Prod.mk.injEq, List.cons.injEq]
      constructor
      · rintro ⟨rfl, rfl⟩
        exact ⟨⟨rfl, rfl⟩, hk⟩
      · exact And.left
    · simp only [expect, if_neg hk, List.cons.injEq]
      constructor
      · intro h
        contradiction
      · rintro ⟨⟨rfl, rfl⟩, h⟩
        exact absurd h hk

/-- Sides are a number or a face list. -/
theorem kind_of_sides {t : Token} {faces : FaceSet} (h : sides t = .ok faces) :
    t.kind = .integer ∨ t.kind = .faceList := by
  unfold sides at h
  split at h
  · next hk => exact .inl hk
  · split at h
    · next hk => exact .inr hk
    · contradiction

/-- Sides have faces exactly if they are allowed. -/
theorem exists_sides_iff {t : Token} (ht : t.kind = .integer ∨ t.kind = .faceList) :
    (∃ faces, sides t = .ok faces) ↔ SidesAllowed t := by
  rcases ht with hk | hk
  · have hl : t.kind ≠ .faceList := by simp [hk]
    by_cases hmax : maxSides < t.number
    · have big : ¬t.number ≤ 100 := Nat.not_le.mpr hmax
      simp [sides, SidesAllowed, hk, hmax, big]
    · have small : t.number ≤ 100 := Nat.not_lt.mp hmax
      have narrow : t.number < 4294967296 := Nat.lt_of_le_of_lt small (by decide)
      by_cases hpos : 0 < t.number
      · simp [sides, SidesAllowed, hk, hmax, small, FaceSet.ofSides?, hpos, narrow,
          Nat.one_le_iff_ne_zero, Nat.pos_iff_ne_zero.mp hpos]
      · simp [sides, SidesAllowed, hk, hmax, FaceSet.ofSides?, hpos]
        omega
  · cases hf : FaceSet.ofText? t.text <;> simp [sides, SidesAllowed, hk, hf]

/-- A count is allowed from one to two hundred. -/
theorem diceCount_eq_ok {t : Token} {n : Nat} :
    diceCount t = .ok n ↔ (1 ≤ t.number ∧ t.number ≤ 200) ∧ n = t.number := by
  unfold diceCount maxDice
  split
  · simp
    omega
  · split
    · next h => simp [h]
    · simp only [Except.ok.injEq]
      omega

/-- The head of an expression is a count, `d` and sides, all of them allowed. -/
theorem head_eq_ok {stop n : Nat} {faces : FaceSet} {ts rest : List Token} :
    head stop ts = .ok (n, faces, rest) ↔
      ∃ count dice s, ts = count :: dice :: s :: rest ∧ count.kind = .integer ∧
        dice.kind = .dice ∧ sides s = .ok faces ∧ diceCount count = .ok n := by
  simp only [head, bind_eq_ok]
  constructor
  · rintro ⟨⟨count, ts₁⟩, h₁, ⟨dice, ts₂⟩, h₂, h₃⟩
    obtain ⟨rfl, hc⟩ := expect_eq_ok.mp h₁
    obtain ⟨rfl, hd⟩ := expect_eq_ok.mp h₂
    cases ts₂ with
    | nil => contradiction
    | cons s ts₃ =>
      obtain ⟨faces', hf, h₄⟩ := bind_eq_ok.mp h₃
      obtain ⟨n', hn, same⟩ := bind_eq_ok.mp h₄
      cases same
      exact ⟨count, dice, s, rfl, hc, hd, hf, hn⟩
  · rintro ⟨count, dice, s, rfl, hc, hd, hf, hn⟩
    exact ⟨(count, _), expect_eq_ok.mpr ⟨rfl, hc⟩, (dice, _), expect_eq_ok.mpr ⟨rfl, hd⟩,
      bind_eq_ok.mpr ⟨faces, hf, bind_eq_ok.mpr ⟨n, hn, rfl⟩⟩⟩

/-- Clauses stand for modifiers exactly if all of them are permitted and every running sum of the
adjustments stays in bounds. -/
theorem resolve_eq_ok {faces : FaceSet} {stop : Nat} {cs : List Clause} {m : Modifiers} :
    resolve faces stop cs = .ok m ↔
      (∀ c ∈ cs, c.Permitted) ∧
        (∀ s ∈ (cs.map Clause.shift).scanl (· + ·) 0, s.natAbs ≤ maxLiteral) ∧
        m = (draftOf (faces.max?.getD 0) cs Draft.start).finish faces := by
  have start : Draft.start.modifiers.adjustment.natAbs ≤ maxLiteral := Nat.zero_le maxLiteral
  simp only [resolve, bind_eq_ok, foldlM_resolve_eq_ok start]
  constructor
  · rintro ⟨d, ⟨permitted, sums, rfl⟩, same⟩
    exact ⟨permitted, sums, (Except.ok.inj same).symm⟩
  · rintro ⟨permitted, sums, rfl⟩
    exact ⟨_, ⟨permitted, sums, rfl⟩, rfl⟩

/-- The tokens of a specification are a head and its clauses, and what is left follows these. -/
theorem parseTokens_eq_ok {stop : Nat} {ts left : List Token} {spec : Spec} :
    parseTokens stop ts = .ok (spec, left) ↔
      ∃ (count dice s : Token) (rest : List Token) (n : Nat) (faces : FaceSet) (m : Modifiers),
        ts = count :: dice :: s :: rest ∧ count.kind = .integer ∧ dice.kind = .dice ∧
        sides s = .ok faces ∧ diceCount count = .ok n ∧ left = (clauses rest).2 ∧
        resolve faces stop (clauses rest).1 = .ok m ∧ spec = ⟨n, faces, m, []⟩ := by
  simp only [parseTokens, bind_eq_ok]
  constructor
  · rintro ⟨⟨n, faces, rest⟩, hh, m, hm, same⟩
    cases same
    obtain ⟨count, dice, s, ht, hc, hd, hf, hn⟩ := head_eq_ok.mp hh
    exact ⟨count, dice, s, rest, n, faces, m, ht, hc, hd, hf, hn, rfl, hm, rfl⟩
  · rintro ⟨count, dice, s, rest, n, faces, m, ht, hc, hd, hf, hn, rfl, hm, rfl⟩
    exact ⟨(n, faces, rest), head_eq_ok.mpr ⟨count, dice, s, ht, hc, hd, hf, hn⟩, m, hm, rfl⟩

/-- Reads the tokens of a text of `stop` bytes that are an expression as a whole. -/
def parseAll (stop : Nat) (ts : List Token) : Except ParseError Spec := do
  let (spec, left) ← parseTokens stop ts
  if left = [] then return spec else throw (.unexpected [] stop left)

/-- A text is read as a whole by its tokens. -/
theorem parse_eq_parseAll (text : String) :
    parse text = parseAll (Text.byteLength text.toList) (Token.scan text.toList) := rfl

/-- Tokens are an expression exactly if they are a specification and none is left. -/
theorem parseAll_eq_ok {stop : Nat} {ts : List Token} {spec : Spec} :
    parseAll stop ts = .ok spec ↔ parseTokens stop ts = .ok (spec, []) := by
  simp only [parseAll, bind_eq_ok]
  constructor
  · rintro ⟨⟨spec', left⟩, hp, h⟩
    split at h
    · next hl =>
      subst hl
      rwa [← Except.ok.inj h]
    · contradiction
  · exact fun hp ↦ ⟨(spec, []), hp, rfl⟩

/-- A text is an expression exactly if its tokens are a specification and none is left. -/
theorem parse_eq_ok_iff_parseTokens {text : String} {spec : Spec} :
    parse text = .ok spec ↔
      parseTokens (Text.byteLength text.toList) (Token.scan text.toList) = .ok (spec, []) := by
  rw [parse_eq_parseAll, parseAll_eq_ok]

/-- Tokens that are a specification are a sentence. -/
theorem sentence_of_parseTokens {stop : Nat} {ts : List Token} {spec : Spec}
    (h : parseTokens stop ts = .ok (spec, [])) : Sentence ts := by
  obtain ⟨count, dice, s, rest, n, faces, m, ht, hc, hd, hf, _, hl, hm, _⟩ :=
    parseTokens_eq_ok.mp h
  rw [ht]
  refine sentence_of_clauses hc hd (kind_of_sides hf) hl.symm ?_
  intro k t compared
  exact (resolve_eq_ok.mp hm).1 _ compared

/-- The tokens of an expression are a sentence. -/
theorem sentence_of_parse {text : String} {spec : Spec} (h : parse text = .ok spec) :
    Sentence (Token.scan text.toList) :=
  sentence_of_parseTokens (parse_eq_ok_iff_parseTokens.mp h)

/-- Methods that fit are well-formed. -/
theorem wellFormed_of_fits {items : List Item} {rest : List Token}
    (h : EachBefore rest Item.Fits items) : ∀ i ∈ items, i.WellFormed := by
  induction items with
  | nil => simp
  | cons i items ih => exact List.forall_mem_cons.mpr ⟨h.1.1, ih h.2⟩

/-- No operator of a method is unrecognized. -/
private theorem unrecognized_notMem_operators (k : TokenKind) : .unrecognized ∉ operators k := by
  cases k <;> decide

private theorem Operation.Of.recognized {kinds : List TokenKind} {o : Operation} (h : o.Of kinds)
    (hk : .unrecognized ∉ kinds) : ∀ t ∈ o.tokens, t.kind ≠ .unrecognized := by
  simpa [Operation.tokens, h.2] using ne_of_mem_of_not_mem h.1 hk

private theorem Evaluator.WellFormed.recognized {e : Evaluator} (h : e.WellFormed) :
    ∀ t ∈ e.tokens, t.kind ≠ .unrecognized := by
  refine List.forall_mem_cons.mpr ⟨ne_of_mem_of_not_mem h.1 (by decide), fun t ht ↦ ?_⟩
  simp [h.2 t (Option.mem_toList.mp ht)]

private theorem Item.WellFormed.recognized {i : Item} (h : i.WellFormed) :
    ∀ t ∈ i.tokens, t.kind ≠ .unrecognized := by
  obtain ⟨letters, operator, amount⟩ := h
  refine List.forall_mem_cons.mpr ⟨ne_of_mem_of_not_mem letters (by decide), fun t ht ↦ ?_⟩
  simp only [Item.argument, List.mem_append, Option.mem_toList] at ht
  rcases ht with ht | ht
  · exact ne_of_mem_of_not_mem (operator t ht) (unrecognized_notMem_operators _)
  · simp [amount t ht]

/-- All tokens of a sentence are recognized. -/
theorem recognized_of_sentence {ts : List Token} (h : Sentence ts) :
    ∀ t ∈ ts, t.kind ≠ .unrecognized := by
  obtain ⟨r, wf, rfl⟩ := h
  intro t ht
  simp only [Reading.tokens, Reading.afterSides, Reading.afterBoost, Reading.afterAssigned,
    Reading.afterEvaluator, Reading.afterMethods, Reading.afterCheck, optional, List.mem_cons,
    List.mem_append, List.mem_flatMap, Option.mem_toList] at ht
  rcases ht with rfl | rfl | rfl | ⟨o, ho, ht⟩ | ⟨o, ho, ht⟩ | ⟨e, he, ht⟩ | ⟨i, hi, ht⟩ |
    ⟨o, ho, ht⟩ | ⟨o, ho, ht⟩
  · simp [wf.count]
  · simp [wf.dice]
  · rcases wf.sides with hs | hs <;> simp [hs]
  · exact (wf.boost o ho).recognized (by decide) t ht
  · exact (wf.assigned o ho).recognized (by decide) t ht
  · exact (wf.evaluator e he).recognized t ht
  · exact (wellFormed_of_fits wf.methods i hi).recognized t ht
  · exact (wf.check o ho).recognized (by decide) t ht
  · exact (wf.sign o ho).recognized (by decide) t ht

/-- The specification that a reading stands for with given faces. -/
def Reading.spec (r : Reading) (faces : FaceSet) : Spec where
  count := r.count.number
  faces := faces
  modifiers := (draftOf (faces.max?.getD 0) r.clauses Draft.start).finish faces

/-- Tokens with a greedy reading are a specification exactly if the numbers of the reading are
allowed, and then it is the one that the reading stands for. -/
theorem parseTokens_eq_ok_iff {stop : Nat} {ts : List Token} {r : Reading}
    (h : GreedyReading ts r) {spec : Spec} :
    parseTokens stop ts = .ok (spec, []) ↔
      r.Allowed ∧ ∃ faces, sides r.sides = .ok faces ∧ spec = r.spec faces := by
  obtain ⟨wf, greedy, tokens⟩ := h
  have methods := wellFormed_of_fits wf.methods
  have read := clauses_eq wf greedy
  have numbers := r.permitted_iff methods
  rw [parseTokens_eq_ok]
  constructor
  · rintro ⟨count, dice, s, rest, n, faces, m, ht, _, _, hf, hn, _, hm, rfl⟩
    obtain ⟨rfl, rfl, rfl, rfl⟩ : r.count = count ∧ r.dice = dice ∧ r.sides = s ∧
        r.afterSides = rest := by
      simpa [Reading.tokens] using tokens.trans ht
    rw [read] at hm
    obtain ⟨permitted, sums, rfl⟩ := resolve_eq_ok.mp hm
    obtain ⟨count, rfl⟩ := diceCount_eq_ok.mp hn
    obtain ⟨boost, assigned, evaluator, items, check, sign⟩ := numbers.mp permitted
    refine ⟨⟨(exists_sides_iff wf.sides).mp ⟨faces, hf⟩, count, boost, assigned, evaluator, items,
      check, sign, (r.forall_mem_scanl_clauses methods).mp sums⟩, faces, hf, rfl⟩
  · rintro ⟨allowed, faces, hf, rfl⟩
    have permitted := numbers.mpr ⟨allowed.boost, allowed.assigned, allowed.evaluator,
      allowed.methods, allowed.check, allowed.sign⟩
    have sums := (r.forall_mem_scanl_clauses methods).mpr allowed.sums
    refine ⟨r.count, r.dice, r.sides, r.afterSides, _, faces, _, tokens.symm, wf.count, wf.dice, hf,
      diceCount_eq_ok.mpr ⟨allowed.count, rfl⟩, ?_, resolve_eq_ok.mpr ⟨?_, ?_, rfl⟩, ?_⟩
    · rw [read]
    · rw [read]
      exact permitted
    · rw [read]
      exact sums
    · rw [read]
      rfl

/-- A text with a greedy reading is an expression exactly if the numbers of the reading are
allowed, and then it is the one that the reading stands for. -/
theorem parse_eq_ok_iff {text : String} {r : Reading}
    (h : GreedyReading (Token.scan text.toList) r) {spec : Spec} :
    parse text = .ok spec ↔
      r.Allowed ∧ ∃ faces, sides r.sides = .ok faces ∧ spec = r.spec faces :=
  parse_eq_ok_iff_parseTokens.trans (parseTokens_eq_ok_iff h)

/-- The parser accepts exactly its grammar: a text is an expression exactly if its tokens are a
sentence whose greedy reading has allowed numbers, and every sentence has one greedy reading, also
one that has other readings. -/
theorem parse_accepts_iff (text : String) :
    ((∃ spec, parse text = .ok spec) ↔
      Sentence (Token.scan text.toList) ∧
        ∀ r, GreedyReading (Token.scan text.toList) r → r.Allowed) ∧
    (Sentence (Token.scan text.toList) → ∃! r, GreedyReading (Token.scan text.toList) r) := by
  constructor
  · constructor
    · rintro ⟨spec, h⟩
      exact ⟨sentence_of_parse h, fun r hr ↦ ((parse_eq_ok_iff hr).mp h).1⟩
    · rintro ⟨sentence, allowed⟩
      obtain ⟨r, hr⟩ := Reading.exists_greedyReading sentence
      have sides := (exists_sides_iff hr.1.sides).mpr (allowed r hr).sides
      obtain ⟨faces, hf⟩ := sides
      exact ⟨r.spec faces, (parse_eq_ok_iff hr).mpr ⟨allowed r hr, faces, hf, rfl⟩⟩
  · intro sentence
    obtain ⟨r, hr⟩ := Reading.exists_greedyReading sentence
    exact ⟨r, hr, fun r' hr' ↦ Reading.greedyReading_unique hr' hr⟩

end DicePool.Grammar
