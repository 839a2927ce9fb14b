import DicePool.Proofs.Expression.Written

/-!
# Negative thresholds in writing

A threshold is written with its sign. A minus after an equals sign forms one token with it, which
assigns; after any other comparison it is a token of its own. Either way the tokens are the pieces
of the text.
-/

namespace DicePool

open Grammar Token

/-- The tokens of the text of a condition. -/
def Condition.signed (c : Condition) : List Token :=
  if 0 ≤ c.threshold then [word c.comparison.kind, numeral c.threshold.toNat]
  else if c.comparison = .equal then (assignment c.threshold).tokens
  else [word c.comparison.kind, word .minus, numeral c.threshold.natAbs]

/-- The tokens of the text of a modifier, whatever its threshold is. -/
def Modifier.signed (m : Modifier) : List Token :=
  m.condition?.elim m.tokens fun c ↦ m.letters ++ c.signed

/-- The tokens of the text of a specification. -/
def Spec.signed (s : Spec) : List Token :=
  [numeral s.count, word .dice, s.faces.sides] ++ s.modifiers.toList.flatMap Modifier.signed

/-- The tokens of a condition are joined to its text. -/
theorem Condition.flatMap_text_signed (c : Condition) :
    c.signed.flatMap Token.text = c.text.toList := by
  unfold signed
  split
  · next nonneg =>
    rw [c.toList_text nonneg]
    simp
  · next negative =>
    have sign : (Numeral.ofInt c.threshold).toList = '-' :: (numeral c.threshold.natAbs).text := by
      rw [Numeral.toList_ofInt, if_pos (Int.not_le.mp negative)]
      rfl
    rw [text, String.toList_append, sign, ← Comparison.text_word]
    split
    · next equal =>
      have equalMinus : (word .equalMinus).text = (word .equal).text ++ ['-'] := rfl
      rw [assignment, if_pos (Int.not_le.mp negative), equal]
      simp [Operation.tokens, equalMinus, Comparison.kind]
    · simp
      rfl

/-- The tokens of a modifier are joined to its text. -/
theorem Modifier.flatMap_text_signed {m : Modifier} (bounded : m.Bounded) :
    m.signed.flatMap Token.text = (Spec.modifierText m).toList := by
  unfold signed
  cases hc : m.condition? with
  | none =>
    apply m.flatMap_text_tokens bounded
    rw [hc]
    rintro _ ⟨⟩
  | some c =>
    rw [toList_modifierText hc, ← c.flatMap_text_signed, ← List.flatMap_append]
    rfl

/-- No symbol but the equals sign goes on with a minus. -/
private theorem piece_before_minus {c : Comparison} (h : c ≠ .equal) (s : List Char) :
    Piece c.kind (word c.kind).text ('-' :: s) := by
  apply (form_word c.isSome_spelling?).piece_of_spellings
  · cases c <;> decide
  · cases c <;> decide
  · cases c with
    | equal => contradiction
    | _ => decide

/-- The tokens of a condition are sealed. -/
private theorem Condition.sealed_signed (c : Condition) : Sealed c.signed := by
  have spelled := c.comparison.isSome_spelling?
  unfold signed
  split
  · exact (phrase_word_numeral spelled _).sealed
  · split
    · exact (phrase_assignment c.threshold).sealed
    · next other =>
      have number : Sealed [word .minus, numeral c.threshold.natAbs] :=
        (phrase_word_numeral (by decide) _).sealed
      exact number.cons_word spelled fun s ↦ piece_before_minus other _

/-- The tokens of a condition begin with a symbol. -/
private theorem Condition.exists_symbol (c : Condition) : ∃ k rest, c.signed = word k :: rest ∧
    k.spelling?.isSome = true ∧ charClass k = .symbol := by
  have symbol := And.intro c.comparison.isSome_spelling? c.comparison.charClass_kind
  unfold signed
  split
  · exact ⟨_, _, rfl, symbol⟩
  · next negative =>
    split
    · rw [assignment, if_pos (Int.not_le.mp negative)]
      exact ⟨_, _, rfl, by decide, by decide⟩
    · exact ⟨_, _, rfl, symbol⟩

/-- The letters of a modifier are cut off before its condition. -/
private theorem sealed_letters {m : Modifier} {c : Condition} (hc : c ∈ m.condition?) :
    Sealed (m.letters ++ c.signed) := by
  unfold Modifier.letters
  cases hm : m.method? with
  | none => exact c.sealed_signed
  | some i =>
    obtain ⟨letters, spelled, letter, same⟩ : ∃ k, k.spelling?.isSome = true ∧
        charClass k = .letter ∧ i.letters = word k := by
      rcases Modifier.method?_cases hm with ⟨k, hk, _, _, rfl⟩ | ⟨_, _, _, rfl | rfl, _⟩
      · refine ⟨k, ?_, ?_, rfl⟩ <;> revert hk <;> cases k <;> decide
      · contradiction
      · contradiction
    obtain ⟨k, rest, tokens, form, symbol⟩ := c.exists_symbol
    have apart : Apart (word letters) (word k) := by
      intro _
      rw [kind_word, kind_word, symbol, letter]
      decide
    rw [Option.map_some, same]
    refine c.sealed_signed.cons_word spelled fun s ↦ ?_
    rw [tokens, List.flatMap_cons, List.append_assoc]
    exact apart.piece (form_word spelled) (form_word form) _

/-- The tokens of a modifier are sealed. -/
private theorem Modifier.sealed_signed (m : Modifier) : Sealed m.signed := by
  unfold signed
  cases hc : m.condition? with
  | some c => exact sealed_letters hc
  | none => exact m.phrase_tokens.sealed

namespace Spec

variable {s : Spec} (bounded : s.Bounded)

include bounded

/-- The tokens of a specification are joined to its text. -/
theorem joined_signed : Token.joined s.signed = s.text := by
  apply joined_head
  rw [List.flatMap_assoc]
  exact List.flatMap_congr fun m hm ↦ m.flatMap_text_signed (bounded.of_mem hm)

/-- The tokens of a specification are the pieces of its text. -/
theorem pieces_signed : Pieces [] s.signed :=
  pieces_head bounded.faces (Sealed.flatMap fun m _ ↦ m.sealed_signed)

end Spec

namespace Grammar

/-- Whether a token is no sign that subtracts right after a comparison or the letters of a method
that compares. -/
private def MayFollow (t t' : Token) : Prop :=
  t.kind ∈ comparisons ++ tests → t'.kind ∉ negatives

/-- Whether tokens may follow each other and no sign that subtracts comes first. -/
private structure Settled (ts : List Token) : Prop where
  chain : ts.IsChain MayFollow
  first : ¬Starts negatives ts

namespace Settled

variable {t : Token} {ts : List Token}

private theorem nil : Settled [] := ⟨.nil, not_starts_nil⟩

private theorem chain_cons (h : Settled ts) (t : Token) : (t :: ts).IsChain MayFollow :=
  List.isChain_cons.mpr ⟨fun t' ht' _ negative ↦ h.first ⟨t', ht', negative⟩, h.chain⟩

private theorem cons (h : Settled ts) (ht : t.kind ∉ negatives) : Settled (t :: ts) :=
  ⟨h.chain_cons t, mt starts_cons.mp ht⟩

private theorem integer_append (h : Settled ts) {n? : Option Token}
    (hn : ∀ n ∈ n?, n.kind = .integer) : Settled (n?.toList ++ ts) := by
  cases n? with
  | none => exact h
  | some n => exact h.cons (hn n rfl ▸ by decide)

private theorem method_append (h : Settled ts) {i : Item} (hi : i.WellFormed) :
    Settled (i.tokens ++ ts) := by
  obtain ⟨letters, operator?, amount?⟩ := i
  obtain ⟨lettered, operator, amount⟩ := hi
  have first : letters.kind ∉ negatives := by
    intro negative
    revert lettered
    generalize letters.kind = k at negative
    revert k
    decide
  have rest := h.integer_append amount
  cases operator? with
  | none => exact rest.cons first
  | some o =>
    have plain : MayFollow letters o := by
      intro compared
      have signless : ∀ k ∈ comparisons ++ tests, ∀ k' ∈ operators k, k' ∉ negatives := by decide
      exact signless _ compared _ (operator o rfl)
    exact ⟨List.isChain_cons_cons.mpr ⟨plain, rest.chain_cons o⟩, mt starts_cons.mp first⟩

end Settled

namespace Reading

variable {r : Reading}

/-- From the evaluator to the check a reading is settled. -/
private theorem settled_after_assigned (h : r.WellFormed) :
    Settled (r.evaluator?.toList.flatMap Evaluator.tokens ++
      (r.methods.flatMap Item.tokens ++ optional r.check?)) := by
  have plain : ∀ k ∈ comparisons, k ∉ negatives := by decide
  have integer : TokenKind.integer ∉ negatives := by decide
  have check : Settled (optional r.check?) := by
    cases hc : r.check? with
    | none => exact .nil
    | some o =>
      obtain ⟨operator, amount⟩ := h.check o hc
      exact (Settled.nil.cons (amount ▸ integer)).cons (plain _ operator)
  have methods : Settled (r.methods.flatMap Item.tokens ++ optional r.check?) := by
    have wf := wellFormed_of_fits h.methods
    generalize r.methods = items at wf
    induction items with
    | nil => exact check
    | cons i items ih =>
      rw [List.forall_mem_cons] at wf
      rw [List.flatMap_cons, List.append_assoc]
      exact (ih wf.2).method_append wf.1
  cases he : r.evaluator? with
  | none => exact methods
  | some e =>
    obtain ⟨operator, amount⟩ := h.evaluator e he
    rw [Option.toList_some, List.flatMap_singleton]
    exact (methods.integer_append amount).cons (plain _ operator)

/-- The tokens before the evaluator. -/
private def beforeEvaluator (r : Reading) : List Token :=
  [r.count, r.dice, r.sides] ++ (optional r.boost? ++ r.assigned.flatMap Operation.tokens)

/-- No comparison and no letters of a method that compares stand before the evaluator. -/
private theorem not_compared_before_evaluator (h : r.WellFormed) :
    ∀ t ∈ r.beforeEvaluator, t.kind ∉ comparisons ++ tests := by
  have operation {kinds : List TokenKind} (hk : ∀ k ∈ kinds, k ∉ comparisons ++ tests)
      {o : Operation} (of : o.Of kinds) : ∀ t ∈ o.tokens, t.kind ∉ comparisons ++ tests := by
    intro t ht
    rcases List.mem_pair.mp ht with rfl | rfl
    · exact hk _ of.1
    · rw [of.2]
      decide
  simp only [beforeEvaluator, List.forall_mem_append, List.forall_mem_cons, h.count, h.dice]
  refine ⟨⟨by decide, by decide, ?_, by simp⟩, ?_, ?_⟩
  · rcases h.sides with hk | hk <;> rw [hk] <;> decide
  · intro t ht
    obtain ⟨o, ho, ht⟩ := List.mem_flatMap.mp ht
    exact operation (by decide) (h.boost o (Option.mem_toList.mp ho)) t ht
  · intro t ht
    obtain ⟨o, ho, ht⟩ := List.mem_flatMap.mp ht
    exact operation (by decide) (h.assigned o ho) t ht

/-- Up to the sign at the end, no sign that subtracts stands right after a comparison or the
letters of a method that compares. -/
private theorem exists_chain (h : r.WellFormed) :
    ∃ ts, r.tokens = ts ++ optional r.sign? ∧ ts.IsChain MayFollow := by
  have front := not_compared_before_evaluator h
  have rest := (settled_after_assigned h).chain
  refine ⟨r.beforeEvaluator ++ (r.evaluator?.toList.flatMap Evaluator.tokens ++
    (r.methods.flatMap Item.tokens ++ optional r.check?)), ?_, ?_⟩
  · simp [tokens, beforeEvaluator, afterSides, afterBoost, afterAssigned, afterEvaluator,
      afterMethods, afterCheck]
  · generalize r.beforeEvaluator = ts at front
    induction ts with
    | nil => exact rest
    | cons t ts ih =>
      rw [List.forall_mem_cons] at front
      exact List.isChain_cons.mpr ⟨fun t' _ compared ↦ absurd compared front.1, ih front.2⟩

/-- A sign that subtracts right after a comparison or the letters of a method that compares is a
plain minus, and its number is the last token. -/
theorem eq_minus_of_tokens (h : r.WellFormed) {before after : List Token} {o t : Token}
    (tokens : r.tokens = before ++ [o, t] ++ after) (ho : o.kind ∈ comparisons ++ tests)
    (ht : t.kind ∈ negatives) : t.kind = .minus ∧ after.length = 1 := by
  obtain ⟨ts, same, chain⟩ := exists_chain h
  have apart (rest : List Token) : ts ≠ before ++ [o, t] ++ rest := by
    rintro rfl
    rw [List.append_assoc] at chain
    exact (List.isChain_cons_cons.mp (List.isChain_append.mp chain).2.1).1 ho ht
  rcases List.append_eq_append_iff.mp (tokens.symm.trans same) with
    ⟨rest, longer, _⟩ | ⟨rest, ends, left⟩
  · exact absurd longer (apart rest)
  · have last := congrArg List.getLast? ends
    cases hs : r.sign? with
    | none =>
      rw [hs] at left
      obtain ⟨rfl, _⟩ := List.append_eq_nil_iff.mp left.symm
      exact absurd (by simpa using ends.symm) (apart [])
    | some s =>
      obtain ⟨sign, amount⟩ := h.sign s hs
      rw [hs] at left
      match rest with
      | [] => exact absurd (by simpa using ends.symm) (apart [])
      | [x] =>
        obtain ⟨rfl, rfl⟩ : s.operator = x ∧ [s.amount] = after := List.cons.inj left
        obtain rfl : t = s.operator := by simpa using last
        refine ⟨?_, rfl⟩
        generalize s.operator.kind = k at sign ht
        revert k
        decide
      | x :: y :: rest =>
        obtain ⟨_, number⟩ : s.operator = x ∧ [s.amount] = y :: (rest ++ after) :=
          List.cons.inj left
        obtain ⟨rfl, nothing⟩ : s.amount = y ∧ [] = rest ++ after := List.cons.inj number
        obtain ⟨rfl, _⟩ := List.append_eq_nil_iff.mp nothing.symm
        obtain rfl : t = s.amount := by simpa using last
        rw [amount] at ht
        contradiction

end Reading

end Grammar

end DicePool
