import DicePool.Proofs.Expression.Relabel

/-!
# Errors after the head

Where the head of an expression is read and the rest is not, the expression is bad, whichever clause
is not allowed and whichever token is left over; the error points at one of the tokens or at the end
of the text.
-/

namespace DicePool

/-- The errors at one of some tokens, or at the end of a text of `stop` bytes. -/
inductive ParseError.Among (stop : Nat) (ts : List Token) : ParseError → Prop
  | atEnd (cause : ParseCause) : Among stop ts (.atEnd cause stop)
  | atToken (cause : ParseCause) {t : Token} (ht : t ∈ ts) : Among stop ts (.atToken cause t)

/-- An error among some tokens is one among more tokens. -/
theorem ParseError.Among.mono {stop : Nat} {ts ts' : List Token} {e : ParseError}
    (h : e.Among stop ts) (sub : ts ⊆ ts') : e.Among stop ts' := by
  cases h with
  | atEnd cause => exact .atEnd cause
  | atToken cause ht => exact .atToken cause (sub ht)

namespace Expression

variable {stop : Nat} {ts : List Token} {e : ParseError}

/-- An unexpected token is one of the tokens that are left, and a missing one is missed at the
end. -/
theorem among_unexpected (expected : List TokenKind) (stop : Nat) (ts : List Token) :
    (ParseError.unexpected expected stop ts).Among stop ts := by
  cases ts with
  | nil => exact .atEnd _
  | cons t ts =>
    rw [ParseError.unexpected]
    split <;> exact .atToken _ List.mem_cons_self

/-- An unexpected token makes a bad expression. -/
theorem kind_unexpected (expected : List TokenKind) (stop : Nat) (ts : List Token) :
    (ParseError.unexpected expected stop ts).kind = .badExpression := by
  cases ts with
  | nil => rfl
  | cons t ts =>
    rw [ParseError.unexpected]
    split <;> rfl

/-- The tokens that a clause keeps. -/
def Clause.tokens : Clause → List Token
  | boost _ n? | adjust _ n? | evaluator _ n? | keep _ n? | drop _ n? | test _ _ n? => n?.toList
  | compared _ comparison => [comparison]

/-- A change of tokens that leaves a clause leaves its tokens. -/
theorem Clause.eq_of_map_eq_self {f : Token → Token} {c : Clause} (h : c.map f = c) :
    ∀ t ∈ c.tokens, f t = t := by
  have kept {n? : Option Token} (same : n?.map f = n?) : ∀ t ∈ n?.toList, f t = t := by
    cases n? with
    | none => simp
    | some n => simpa using same
  cases c with
  | compared method comparison => simpa [Clause.map, Clause.tokens] using h
  | _ => exact kept (by simpa [Clause.map] using h)

/-- What is read as clauses, and what is left, are tokens that have been there. -/
theorem clauses_subset (ts : List Token) :
    (∀ c ∈ (clauses ts).1, c.tokens ⊆ ts) ∧ (clauses ts).2 ⊆ ts := by
  -- reading commutes with every change of tokens that keeps their kinds; this one leaves the given
  -- tokens as they are, and no others
  let change (t : Token) : Token := if t ∈ ts then t else { t with text := ' ' :: t.text }
  have kinds (t : Token) : (change t).kind = t.kind := by
    simp only [change]
    split <;> rfl
  have fixed {t : Token} (h : change t = t) : t ∈ ts := by
    by_contra other
    have longer := congrArg (fun t ↦ t.text.length) h
    simp [change, other] at longer
  have unchanged : ts.map change = ts := by
    conv_rhs => rw [← List.map_id ts]
    exact List.map_congr_left fun t ht ↦ if_pos ht
  have read := clauses_map kinds ts
  rw [unchanged] at read
  constructor
  · intro c hc t ht
    have same : (clauses ts).1.map (Clause.map change) = (clauses ts).1.map id := by
      rw [List.map_id]
      exact (congrArg Prod.fst read).symm
    exact fixed (Clause.eq_of_map_eq_self (List.map_inj_left.mp same c hc) t ht)
  · intro t ht
    have same : (clauses ts).2.map change = (clauses ts).2.map id := by
      rw [List.map_id]
      exact (congrArg Prod.snd read).symm
    exact fixed (List.map_inj_left.mp same t ht)

private theorem eq_of_ite_eq_error {α : Type} {p : Prop} [Decidable p] {a : α} {why : ParseError}
    (h : (if p then .ok a else .error why) = Except.error e) : e = why := by
  split at h
  · contradiction
  · exact (Except.error.inj h).symm

private theorem literal_eq_error {default : Int} {n? : Option Token}
    (h : literal default n? = .error e) : ∃ n ∈ n?, e = .atToken .numberTooLarge n := by
  cases n? with
  | none => contradiction
  | some n => exact ⟨n, rfl, eq_of_ite_eq_error h⟩

private theorem count_eq_error {default : Int} {n? : Option Token}
    (h : count default n? = .error e) : ∃ n ∈ n?, e = .atToken .numberTooLarge n := by
  cases n? with
  | none => contradiction
  | some n => exact ⟨n, rfl, eq_of_ite_eq_error h⟩

private theorem adjusted_eq_error {total : Int} {negative : Bool} {n? : Option Token}
    (h : adjusted total negative n? = .error e) : ∃ n ∈ n?, e = .atToken .numberTooLarge n := by
  cases n? with
  | none => contradiction
  | some n =>
    rcases bind_eq_error.mp h with first | ⟨amount, _, moved⟩
    · exact literal_eq_error first
    · exact ⟨n, rfl, eq_of_ite_eq_error moved⟩

/-- A clause that is not allowed makes a bad expression, at a token of its own or, where nothing is
divided by, at the end. -/
theorem Clause.resolve_eq_error {maxFace : Int} {d : Draft} {c : Clause}
    (h : c.resolve maxFace stop d = .error e) :
    e.kind = .badExpression ∧ e.Among stop c.tokens := by
  have number {n? : Option Token} (large : ∃ n ∈ n?, e = .atToken .numberTooLarge n) :
      e.kind = .badExpression ∧ e.Among stop n?.toList := by
    obtain ⟨n, hn, rfl⟩ := large
    exact ⟨rfl, .atToken _ (Option.mem_toList.mpr hn)⟩
  cases c with
  | boost operator n? =>
    rcases bind_eq_error.mp h with first | ⟨magnitude, _, divided⟩
    · exact number (literal_eq_error first)
    · simp only at divided
      split at divided
      · cases n? with
        | none => cases divided; exact ⟨rfl, .atEnd _⟩
        | some n => cases divided; exact ⟨rfl, .atToken _ List.mem_cons_self⟩
      · contradiction
  | adjust negative n? =>
    rcases bind_eq_error.mp h with first | ⟨_, _, rest⟩
    · exact number (adjusted_eq_error first)
    · contradiction
  | keep layer n? | drop layer n? =>
    rcases bind_eq_error.mp h with first | ⟨_, _, rest⟩
    · exact number (count_eq_error first)
    · contradiction
  | evaluator _ n? | test _ _ n? =>
    rcases bind_eq_error.mp h with first | ⟨_, _, rest⟩
    · exact number (literal_eq_error first)
    · contradiction
  | compared method comparison =>
    cases h
    exact ⟨rfl, .atToken _ List.mem_cons_self⟩

private theorem foldlM_resolve_eq_error {maxFace : Int} {cs : List Clause} {d : Draft}
    (h : cs.foldlM (Clause.resolve maxFace stop) d = .error e) :
    ∃ c ∈ cs, e.kind = .badExpression ∧ e.Among stop c.tokens := by
  induction cs generalizing d with
  | nil => contradiction
  | cons c cs ih =>
    rw [List.foldlM_cons] at h
    rcases bind_eq_error.mp h with first | ⟨d', _, rest⟩
    · exact ⟨c, List.mem_cons_self, c.resolve_eq_error first⟩
    · obtain ⟨c', hc', fails⟩ := ih rest
      exact ⟨c', List.mem_cons_of_mem _ hc', fails⟩

/-- Clauses that are not allowed make a bad expression, at one of the tokens that they are read from
or at the end. -/
theorem resolve_clauses_eq_error {faces : FaceSet}
    (h : resolve faces stop (clauses ts).1 = .error e) :
    e.kind = .badExpression ∧ e.Among stop ts := by
  rcases bind_eq_error.mp h with first | ⟨_, _, rest⟩
  · obtain ⟨c, hc, bad, among⟩ := foldlM_resolve_eq_error first
    exact ⟨bad, among.mono ((clauses_subset ts).1 c hc)⟩
  · contradiction

/-- Tokens that are no specification have a head that is refused, or make a bad expression at one of
the tokens or at the end. -/
theorem parseTokens_eq_error (h : parseTokens stop ts = .error e) :
    head stop ts = .error e ∨
      (∃ x, head stop ts = .ok x) ∧ e.kind = .badExpression ∧ e.Among stop ts := by
  rcases bind_eq_error.mp h with first | ⟨⟨n, faces, rest⟩, read, later⟩
  · exact .inl first
  refine .inr ⟨⟨_, read⟩, ?_⟩
  obtain ⟨count, dice, s, tokens, _⟩ := Grammar.head_eq_ok.mp read
  rcases bind_eq_error.mp later with refused | ⟨_, _, done⟩
  · obtain ⟨bad, among⟩ := resolve_clauses_eq_error refused
    exact ⟨bad, among.mono fun t ht ↦ by simp [tokens, ht]⟩
  · contradiction

/-- A text that is no expression has a head that is refused, or is a bad expression at one of its
tokens or at its end. -/
theorem parse_eq_error {text : String} (h : parse text = .error e) :
    head (Text.byteLength text.toList) (Token.scan text.toList) = .error e ∨
      (∃ x, head (Text.byteLength text.toList) (Token.scan text.toList) = .ok x) ∧
        e.kind = .badExpression ∧
          e.Among (Text.byteLength text.toList) (Token.scan text.toList) := by
  rcases bind_eq_error.mp h with first | ⟨⟨spec, left⟩, read, h⟩
  · exact parseTokens_eq_error first
  simp only at h
  split at h
  · contradiction
  · obtain ⟨count, dice, s, rest, n, faces, m, tokens, hc, hd, hs, hn, rfl, _⟩ :=
      Grammar.parseTokens_eq_ok.mp read
    cases h
    refine .inr ⟨⟨_, Grammar.head_eq_ok.mpr ⟨count, dice, s, tokens, hc, hd, hs, hn⟩⟩,
      kind_unexpected _ _ _, (among_unexpected _ _ _).mono ?_⟩
    intro t ht
    simp [tokens, (clauses_subset rest).2 ht]

end Expression

end DicePool
