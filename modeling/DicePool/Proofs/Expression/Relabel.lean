import DicePool.Proofs.Expression.Parse
import DicePool.Proofs.Token.Scan

/-!
# The same tokens elsewhere

The kinds of tokens decide which of them belong together, and their texts what they stand for, or
why they are refused. Where they stand in a text matters only for where errors point.
-/

namespace DicePool.Expression

/-- A clause with its tokens replaced. -/
def Clause.map (f : Token → Token) : Clause → Clause
  | boost operator n? => boost operator (n?.map f)
  | adjust negative n? => adjust negative (n?.map f)
  | evaluator c n? => evaluator c (n?.map f)
  | keep layer n? => keep layer (n?.map f)
  | drop layer n? => drop layer (n?.map f)
  | test t c n? => test t c (n?.map f)
  | compared method comparison => compared method (f comparison)

section Kinds

variable {f : Token → Token} (hf : ∀ t, (f t).kind = t.kind)

include hf

private theorem integer?_map (ts : List Token) : integer? (ts.map f) = (integer? ts).map f := by
  cases ts with
  | nil => rfl
  | cons t ts =>
    simp only [List.map_cons, integer?, hf]
    split <;> rfl

private theorem argument_map {α : Type} (g : TokenKind → Option α) (ts : List Token) :
    argument g (ts.map f) =
      ⟨(argument g ts).operator, (argument g ts).amount.map f, (argument g ts).size⟩ := by
  have same : ((ts.map f).head?.bind fun t ↦ g t.kind) = ts.head?.bind fun t ↦ g t.kind := by
    cases ts with
    | nil => rfl
    | cons t ts => simp [hf]
  have length (n? : Option Token) : (n?.map f).toList.length = n?.toList.length := by
    cases n? <;> rfl
  unfold argument
  rw [same, ← List.map_drop, integer?_map hf, integer?_map hf]
  split <;> simp only [length]

private theorem operation?_map {α : Type} (g : TokenKind → Option α) (ts : List Token) :
    operation? g (ts.map f) =
      (operation? g ts).map fun (a, n, rest) ↦ (a, f n, rest.map f) := by
  match ts with
  | [] => rfl
  | [t] => rfl
  | t :: n :: rest =>
    simp only [List.map_cons, operation?, hf]
    split
    · split <;> rfl
    · rfl

private theorem selectionClause_map (kind : TokenKind) {clause : Option Token → Clause}
    (hc : ∀ n?, (clause n?).map f = clause (n?.map f)) (ts : List Token) :
    selectionClause kind clause (ts.map f) =
      ((selectionClause kind clause ts).1.map f, (selectionClause kind clause ts).2) := by
  unfold selectionClause
  rw [integer?_map hf]
  cases ts with
  | nil => simp [hc]
  | cons t ts =>
    simp only [List.map_cons, hf]
    split
    · rfl
    · cases integer? (t :: ts) <;> simp [hc]

private theorem methodClause_map (kind : TokenKind) (ts : List Token) (m : Method) :
    methodClause kind (ts.map f) m =
      ((methodClause kind ts m).1.map f, (methodClause kind ts m).2) := by
  cases m with
  | boost => simp only [methodClause, argument_map hf, Clause.map]
  | adjust => simp only [methodClause, argument_map hf, Clause.map]
  | keep layer => exact selectionClause_map hf kind (fun _ ↦ rfl) ts
  | drop layer => exact selectionClause_map hf kind (fun _ ↦ rfl) ts
  | test t => simp only [methodClause, argument_map hf, Clause.map]

private theorem boostClause_map (ts : List Token) :
    boostClause (ts.map f) = ((boostClause ts).1.map (Clause.map f), (boostClause ts).2.map f) := by
  unfold boostClause
  rw [operation?_map hf]
  cases operation? TokenKind.arithmetic? ts <;> rfl

private theorem checkClause_map (ts : List Token) :
    checkClause (ts.map f) = ((checkClause ts).1.map (Clause.map f), (checkClause ts).2.map f) := by
  unfold checkClause
  rw [operation?_map hf]
  cases operation? TokenKind.comparison? ts <;> rfl

private theorem signClause_map (ts : List Token) :
    signClause (ts.map f) = ((signClause ts).1.map (Clause.map f), (signClause ts).2.map f) := by
  unfold signClause
  rw [operation?_map hf]
  cases operation? TokenKind.sign? ts <;> rfl

private theorem assignedClauses_map (ts : List Token) :
    assignedClauses (ts.map f) =
      ((assignedClauses ts).1.map (Clause.map f), (assignedClauses ts).2.map f) := by
  induction ts using assignedClauses.induct with
  | case1 t n rest negative ha hn clauses left read ih =>
    simp only [List.map_cons, assignedClauses, hf, ha, hn, if_true, ih]
    rfl
  | case2 t n rest negative ha hn =>
    simp only [List.map_cons, assignedClauses, hf, ha, if_neg hn]
    rfl
  | case3 t n rest ha =>
    simp only [List.map_cons, assignedClauses, hf, ha]
    rfl
  | case4 ts short =>
    rcases ts with - | ⟨t, - | ⟨n, rest⟩⟩
    · rfl
    · rfl
    · exact (short t n rest rfl).elim

private theorem evaluatorClause_map (ts : List Token) :
    evaluatorClause (ts.map f) =
      ((evaluatorClause ts).1.map (Clause.map f), (evaluatorClause ts).2.map f) := by
  cases ts with
  | nil => rfl
  | cons t ts =>
    simp only [evaluatorClause, List.map_cons, List.head?_cons, Option.bind_some, hf]
    split
    · simp only [List.drop_succ_cons, List.drop_zero, integer?_map hf, Nat.add_comm 1]
      cases integer? ts <;> simp [Clause.map]
    · rfl

private theorem methodClauses_map (n : Nat) (ts : List Token) :
    methodClauses n (ts.map f) =
      ((methodClauses n ts).1.map (Clause.map f), (methodClauses n ts).2.map f) := by
  induction ts generalizing n with
  | nil => cases n <;> rfl
  | cons t ts ih =>
    cases n with
    | succ n => exact ih n
    | zero =>
      simp only [List.map_cons, methodClauses, hf]
      split
      · simp only [methodClause_map hf, ih, List.map_cons]
      · rfl

/-- Tokens with the same kinds are grouped into the same clauses. -/
theorem clauses_map (ts : List Token) :
    clauses (ts.map f) = ((clauses ts).1.map (Clause.map f), (clauses ts).2.map f) := by
  simp only [clauses, boostClause_map hf, assignedClauses_map hf, evaluatorClause_map hf,
    methodClauses_map hf, checkClause_map hf, signClause_map hf, List.map_append]

end Kinds

/-- A reading with what its errors say, wherever they point. -/
def unplaced {α : Type} (x : Except ParseError α) : Except (ParseCause × String) α :=
  x.mapError fun e ↦ (e.cause, e.slice)

/-- What a reading gives does not hang on what its errors say. -/
theorem unplaced_eq_ok {α : Type} {x : Except ParseError α} {a : α} :
    unplaced x = .ok a ↔ x = .ok a := by
  cases x <;> simp [unplaced, Except.mapError]

/-- Readings after one another say what each of them says. -/
theorem unplaced_bind {α β : Type} (x : Except ParseError α) (g : α → Except ParseError β) :
    unplaced (x >>= g) = unplaced x >>= fun a ↦ unplaced (g a) := by
  cases x <;> rfl

private theorem unplaced_bind_map {α α' β β' : Type} {x : Except ParseError α}
    {x' : Except ParseError α'} {g : α → α'} {h : β → β'} {k : α → Except ParseError β}
    {k' : α' → Except ParseError β'} (first : unplaced x' = (unplaced x).map g)
    (second : ∀ a, unplaced (k' (g a)) = (unplaced (k a)).map h) :
    unplaced (x' >>= k') = (unplaced (x >>= k)).map h := by
  rw [unplaced_bind, unplaced_bind, first]
  cases unplaced x with
  | error e => rfl
  | ok a => exact second a

private theorem unplaced_ite {α : Type} (p : Prop) [Decidable p] (x y : Except ParseError α) :
    unplaced (if p then x else y) = if p then unplaced x else unplaced y :=
  apply_ite unplaced p x y

section Texts

variable {f : Token → Token} (hk : ∀ t, (f t).kind = t.kind) (ht : ∀ t, (f t).text = t.text)

include ht

private theorem number_map (t : Token) : (f t).number = t.number := by
  rw [Token.number, Token.number, ht]

private theorem unplaced_atToken {α : Type} (cause : ParseCause) (t : Token) :
    unplaced (α := α) (.error (.atToken cause (f t))) =
      unplaced (.error (.atToken cause t)) := by
  simp only [unplaced, Except.mapError, ParseError.atToken, ht]

private theorem literal_map (default : Int) (n? : Option Token) :
    unplaced (literal default (n?.map f)) = unplaced (literal default n?) := by
  cases n? with
  | none => rfl
  | some n =>
    simp only [Option.map_some, literal, number_map ht, unplaced_ite, unplaced_atToken ht]

private theorem count_map (default : Int) (n? : Option Token) :
    unplaced (count default (n?.map f)) = unplaced (count default n?) := by
  cases n? with
  | none => rfl
  | some n =>
    simp only [Option.map_some, count, number_map ht, unplaced_ite, unplaced_atToken ht]

private theorem adjusted_map (total : Int) (negative : Bool) (n? : Option Token) :
    unplaced (adjusted total negative (n?.map f)) = unplaced (adjusted total negative n?) := by
  cases n? with
  | none => rfl
  | some n =>
    have amount := literal_map ht 0 (some n)
    rw [Option.map_some] at amount
    simp only [Option.map_some, adjusted, unplaced_bind, amount, unplaced_ite, unplaced_atToken ht]

private theorem clauseResolve_map (maxFace : Int) (stop stop' : Nat) (d : Draft) (c : Clause) :
    unplaced ((c.map f).resolve maxFace stop' d) = unplaced (c.resolve maxFace stop d) := by
  cases c with
  | boost operator n? =>
    simp only [Clause.map, Clause.resolve, unplaced_bind, literal_map ht, unplaced_ite]
    cases n? with
    | none => rfl
    | some n => simp only [Option.map_some, unplaced_atToken ht]
  | adjust negative n? => simp only [Clause.map, Clause.resolve, unplaced_bind, adjusted_map ht]
  | keep layer n? | drop layer n? =>
    simp only [Clause.map, Clause.resolve, unplaced_bind, count_map ht]
  | evaluator comparison n? | test t comparison n? =>
    simp only [Clause.map, Clause.resolve, unplaced_bind, literal_map ht]
  | compared method comparison => exact unplaced_atToken ht _ comparison

private theorem foldlM_resolve_map (maxFace : Int) (stop stop' : Nat) (cs : List Clause)
    (d : Draft) :
    unplaced ((cs.map (Clause.map f)).foldlM (Clause.resolve maxFace stop') d) =
      unplaced (cs.foldlM (Clause.resolve maxFace stop) d) := by
  induction cs generalizing d with
  | nil => rfl
  | cons c cs ih =>
    simp only [List.map_cons, List.foldlM_cons, unplaced_bind, ih,
      clauseResolve_map ht maxFace stop stop']

/-- Clauses with the same texts stand for the same modifiers, or are refused alike. -/
theorem resolve_map (faces : FaceSet) (stop stop' : Nat) (cs : List Clause) :
    unplaced (resolve faces stop' (cs.map (Clause.map f))) = unplaced (resolve faces stop cs) := by
  simp only [resolve, unplaced_bind, foldlM_resolve_map ht _ stop stop']

private theorem diceCount_map (t : Token) :
    unplaced (diceCount (f t)) = unplaced (diceCount t) := by
  simp only [diceCount, number_map ht, unplaced_ite, unplaced_atToken ht]

include hk

private theorem sides_map (t : Token) : unplaced (sides (f t)) = unplaced (sides t) := by
  simp only [sides, hk, ht, number_map ht, unplaced_ite, unplaced_atToken ht]
  cases FaceSet.ofSides? t.number <;> cases FaceSet.ofText? t.text <;>
    simp only [unplaced_atToken ht]

private theorem unexpected_map {α : Type} (expected : List TokenKind) (stop stop' : Nat)
    (ts : List Token) :
    unplaced (α := α) (.error (.unexpected expected stop' (ts.map f))) =
      unplaced (.error (.unexpected expected stop ts)) := by
  cases ts with
  | nil => rfl
  | cons t ts =>
    simp only [List.map_cons, ParseError.unexpected, hk]
    split <;> exact unplaced_atToken ht _ t

private theorem expect_map (kind : TokenKind) (stop stop' : Nat) (ts : List Token) :
    unplaced (expect kind stop' (ts.map f)) =
      (unplaced (expect kind stop ts)).map fun (t, rest) ↦ (f t, rest.map f) := by
  cases ts with
  | nil => rfl
  | cons t ts =>
    have refused := unexpected_map (α := Token × List Token) hk ht [kind] stop stop' (t :: ts)
    rw [List.map_cons] at refused ⊢
    by_cases same : t.kind = kind
    · rw [expect, expect, if_pos same, if_pos ((hk t).trans same)]
      rfl
    · rw [expect, expect, if_neg same, if_neg (by rwa [hk]), refused]
      rfl

private theorem head_map (stop stop' : Nat) (ts : List Token) :
    unplaced (head stop' (ts.map f)) =
      (unplaced (head stop ts)).map fun (n, faces, rest) ↦ (n, faces, rest.map f) := by
  refine unplaced_bind_map (expect_map hk ht _ stop stop' ts) fun (n, ts) ↦ ?_
  refine unplaced_bind_map (expect_map hk ht _ stop stop' ts) fun (_, ts) ↦ ?_
  cases ts with
  | nil => rfl
  | cons s ts =>
    simp only [List.map_cons, unplaced_bind, sides_map hk ht, diceCount_map ht]
    cases unplaced (sides s) <;> cases unplaced (diceCount n) <;> rfl

/-- Tokens with the same kinds and texts are the same specification and leave the same, or are
refused alike. -/
theorem parseTokens_map (stop stop' : Nat) (ts : List Token) :
    unplaced (parseTokens stop' (ts.map f)) =
      (unplaced (parseTokens stop ts)).map fun (spec, left) ↦ (spec, left.map f) := by
  refine unplaced_bind_map (head_map hk ht stop stop' ts) fun (n, faces, rest) ↦ ?_
  simp only [clauses_map hk, unplaced_bind, resolve_map ht faces stop stop']
  cases unplaced (resolve faces stop (clauses rest).1) <;> rfl

end Texts

private theorem parseAll_map {f : Token → Token} (hk : ∀ t, (f t).kind = t.kind)
    (ht : ∀ t, (f t).text = t.text) (stop stop' : Nat) (ts : List Token) :
    unplaced (Grammar.parseAll stop' (ts.map f)) = unplaced (Grammar.parseAll stop ts) := by
  simp only [Grammar.parseAll, unplaced_bind, parseTokens_map hk ht stop stop']
  cases unplaced (parseTokens stop ts) with
  | error e => rfl
  | ok read =>
    obtain ⟨spec, left⟩ := read
    change unplaced (if left.map f = [] then _ else _) = unplaced (if left = [] then _ else _)
    simp only [List.map_eq_nil_iff, unplaced_ite]
    congr 1
    exact unexpected_map hk ht [] stop stop' left

/-- Tokens are the same expression wherever they stand, or are refused alike. -/
theorem parseAll_congr {stop stop' : Nat} {ts ts' : List Token}
    (h : ts.map Token.lexeme = ts'.map Token.lexeme) :
    unplaced (Grammar.parseAll stop ts) = unplaced (Grammar.parseAll stop' ts') := by
  let bare (t : Token) : Token := ⟨t.lexeme.1, ⟨0, 0⟩, t.lexeme.2⟩
  have same : ts.map bare = ts'.map bare := by
    have mapped := congrArg (List.map fun x ↦ (⟨x.1, ⟨0, 0⟩, x.2⟩ : Token)) h
    rwa [List.map_map, List.map_map] at mapped
  have read (stop : Nat) (ts : List Token) :
      unplaced (Grammar.parseAll 0 (ts.map bare)) = unplaced (Grammar.parseAll stop ts) :=
    parseAll_map (f := bare) (fun _ ↦ rfl) (fun _ ↦ rfl) stop 0 ts
  rw [← read stop, ← read stop', same]

/-- Texts with the same tokens at whatever places are the same expression, or are refused alike. -/
theorem unplaced_parse_congr {text text' : String}
    (h : (Token.scan text.toList).map Token.lexeme = (Token.scan text'.toList).map Token.lexeme) :
    unplaced (parse text) = unplaced (parse text') := by
  rw [Grammar.parse_eq_parseAll, Grammar.parse_eq_parseAll]
  exact parseAll_congr h

/-- The joined text of pieces is an expression exactly if the pieces are a specification. -/
theorem parse_joined (stop : Nat) {ts : List Token} {rest : List Char} {spec : Spec}
    (h : Token.Pieces rest ts) :
    parse (Token.joined ts) = .ok spec ↔ parseTokens stop ts = .ok (spec, []) := by
  have alike : unplaced (parse (Token.joined ts)) = unplaced (Grammar.parseAll stop ts) := by
    rw [Grammar.parse_eq_parseAll, Token.scan_joined h]
    exact parseAll_congr (Token.map_lexeme_place 0 ts)
  rw [← unplaced_eq_ok, alike, unplaced_eq_ok, Grammar.parseAll_eq_ok]

section Shape

variable {k : ModifierKind}

private theorem kind_modifier?_map (f : Token → Token) (maxFace : Int) (c : Clause) :
    ((c.map f).modifier? maxFace).map Modifier.kind = (c.modifier? maxFace).map Modifier.kind := by
  cases c with
  | test t c n? => cases t <;> rfl
  | _ => rfl

private theorem isSome_filter_kind (m? : Option Modifier) :
    (m?.filter fun m ↦ m.kind = k).isSome = decide (m?.map Modifier.kind = some k) := by
  cases m? with
  | none => rfl
  | some m => by_cases h : m.kind = k <;> simp [h]

/-- Whether clauses set a modifier of a kind does not hang on their tokens. -/
private theorem contains_draftOf_map (f : Token → Token) (hk : k ≠ .adjust) (maxFace : Int)
    (cs : List Clause) {d d' : Draft} (h : d.modifiers.contains k = d'.modifiers.contains k) :
    (draftOf maxFace (cs.map (Clause.map f)) d).modifiers.contains k =
      (draftOf maxFace cs d').modifiers.contains k := by
  induction cs generalizing d d' with
  | nil => exact h
  | cons c cs ih =>
    refine ih ?_
    rw [Modifiers.contains, Modifiers.contains] at h ⊢
    rw [Clause.get?_apply _ _ _ hk, Clause.get?_apply _ _ _ hk, Option.isSome_or, Option.isSome_or,
      isSome_filter_kind, isSome_filter_kind, kind_modifier?_map, h]

/-- Which kinds of modifiers there are when a draft is finished hangs on the draft. -/
private theorem contains_finish (faces : FaceSet) {d d' : Draft}
    (h : ∀ k, d.modifiers.contains k = d'.modifiers.contains k) (k : ModifierKind) :
    (d.finish faces).contains k = (d'.finish faces).contains k := by
  by_cases hn : faces.isNumeric = true
  · by_cases hs : k = .success
    · subst hs
      simp [Draft.finish, hn, Modifiers.contains, Modifiers.get?]
    · rw [Modifiers.contains, Modifiers.contains, Grammar.get?_finish_of_ne hn _ hs,
        Grammar.get?_finish_of_ne hn _ hs]
      exact h k
  · rw [Draft.finish, Draft.finish, if_neg hn, if_neg hn]
    cases k with
    | adjust => exact h .adjust
    | _ => rfl

/-- Tokens of the same kinds stand for the same kinds of modifiers. -/
private theorem contains_clauses {ts ts' : List Token}
    (h : ts.map Token.kind = ts'.map Token.kind) (maxFace : Int) (k : ModifierKind) :
    (draftOf maxFace (clauses ts).1 Draft.start).modifiers.contains k =
      (draftOf maxFace (clauses ts').1 Draft.start).modifiers.contains k := by
  by_cases hk : k = .adjust
  · subst hk
    rw [Modifiers.contains, Modifiers.contains, Modifiers.get?, Modifiers.get?,
      adjust?_draftOf maxFace _ (a := 0) rfl, adjust?_draftOf maxFace _ (a := 0) rfl]
    rfl
  · let bare (t : Token) : Token := ⟨t.kind, ⟨0, 0⟩, []⟩
    have same : ts.map bare = ts'.map bare := by
      have mapped := congrArg (List.map fun k ↦ (⟨k, ⟨0, 0⟩, []⟩ : Token)) h
      rwa [List.map_map, List.map_map] at mapped
    have grouped (ts : List Token) :
        (clauses (ts.map bare)).1 = (clauses ts).1.map (Clause.map bare) :=
      congrArg Prod.fst (clauses_map (f := bare) (fun _ ↦ rfl) ts)
    rw [← contains_draftOf_map bare hk maxFace (clauses ts).1 rfl, ← grouped, same, grouped]
    exact contains_draftOf_map bare hk maxFace _ rfl

/-- Expressions with the same sides and tokens of the same kinds show the same faces and have
modifiers of the same kinds. -/
theorem parseTokens_shape {stop stop' : Nat} {ts ts' : List Token} {spec spec' : Spec}
    (h : parseTokens stop ts = .ok (spec, [])) (h' : parseTokens stop' ts' = .ok (spec', []))
    (kinds : ts.map Token.kind = ts'.map Token.kind)
    (third : ts[2]?.map Token.lexeme = ts'[2]?.map Token.lexeme) :
    spec.faces = spec'.faces ∧ ∀ k, spec.modifiers.contains k = spec'.modifiers.contains k := by
  obtain ⟨count, dice, s, rest, n, faces, m, rfl, _, _, hs, _, _, hm, rfl⟩ :=
    Grammar.parseTokens_eq_ok.mp h
  obtain ⟨count', dice', s', rest', n', faces', m', rfl, _, _, hs', _, _, hm', rfl⟩ :=
    Grammar.parseTokens_eq_ok.mp h'
  let bare (t : Token) : Token := ⟨t.lexeme.1, ⟨0, 0⟩, t.lexeme.2⟩
  have same : bare s = bare s' :=
    congrArg (fun x ↦ (⟨x.1, ⟨0, 0⟩, x.2⟩ : Token)) (Option.some.inj third)
  have sides (t : Token) (faces : FaceSet) :
      Expression.sides (bare t) = .ok faces ↔ Expression.sides t = .ok faces := by
    rw [← unplaced_eq_ok, sides_map (f := bare) (fun _ ↦ rfl) (fun _ ↦ rfl), unplaced_eq_ok]
  rw [← sides, same, sides, hs'] at hs
  obtain rfl := Except.ok.inj hs
  obtain ⟨_, _, rfl⟩ := Grammar.resolve_eq_ok.mp hm
  obtain ⟨_, _, rfl⟩ := Grammar.resolve_eq_ok.mp hm'
  refine ⟨rfl, contains_finish _ (contains_clauses ?_ _)⟩
  exact (List.cons.inj (List.cons.inj (List.cons.inj kinds).2).2).2

end Shape

end DicePool.Expression
