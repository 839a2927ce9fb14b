import DicePool.Proofs.Expression.Bounds
import DicePool.Proofs.Token.Written

/-!
# Written expressions

The text of a specification is written as a reading of the grammar, token by token: every modifier
is a phrase of its own. As long as no threshold is negative the tokens are the pieces of the text.
-/

namespace DicePool

open Grammar Token

/-- The kind of the symbol of an operator. -/
def Arithmetic.kind : Arithmetic → TokenKind
  | add => .plus
  | subtract => .minus
  | multiply => .star
  | divide => .slash

/-- The kind of the symbol of a comparison. -/
def Comparison.kind : Comparison → TokenKind
  | less => .less
  | lessEqual => .lessEqual
  | greater => .greater
  | greaterEqual => .greaterEqual
  | equal => .equal
  | notEqual => .bangEqual

/-- The symbol of an operator is a word. -/
theorem Arithmetic.isSome_spelling? (o : Arithmetic) : o.kind.spelling?.isSome = true := by
  cases o <;> decide

/-- The symbol of a comparison is a word. -/
theorem Comparison.isSome_spelling? (c : Comparison) : c.kind.spelling?.isSome = true := by
  cases c <;> decide

/-- The symbol of a comparison is made of symbols. -/
theorem Comparison.charClass_kind (c : Comparison) : charClass c.kind = .symbol := by
  cases c <;> decide

/-- The symbol of a comparison compares. -/
theorem Comparison.kind_mem (c : Comparison) : c.kind ∈ comparisons := by
  cases c <;> decide

/-- The kind of the letters of an explosion. -/
def Explosion.kind (e : Explosion) : TokenKind :=
  match e.compound, e.penetrate with
  | false, false => .explode
  | true, false => .compound
  | false, true => .penetrate
  | true, true => .compoundPenetrate

/-- A boost as an operation. -/
def Boost.operation (b : Boost) : Operation := ⟨word b.operator.kind, numeral b.magnitude.toNat⟩

/-- An adjustment as an operation. -/
def assignment (a : Int) : Operation :=
  ⟨word (if a < 0 then .equalMinus else .equalPlus), numeral a.natAbs⟩

/-- A success condition as an evaluator. -/
def Condition.evaluator (c : Condition) : Evaluator :=
  ⟨word c.comparison.kind, some (numeral c.threshold.toNat)⟩

/-- A method that compares. -/
def Condition.method (letters : TokenKind) (c : Condition) : Item :=
  ⟨word letters, some (word c.comparison.kind), some (numeral c.threshold.toNat)⟩

/-- A method that keeps or drops dice. -/
def Selection.method (letters : TokenKind) (s : Selection) : Item :=
  ⟨word letters, none, some (numeral s.count)⟩

/-- The method that sets a modifier, if it is written as one. -/
def Modifier.method? : Modifier → Option Item
  | keep s => some (s.method (match s.layer with | .high => .keepHighest | .low => .keepLowest))
  | drop s => some (s.method (match s.layer with | .high => .dropHighest | .low => .dropLowest))
  | explode e => some (e.condition.method e.kind)
  | reroll r => some (r.condition.method (if r.once then .rerollOnce else .reroll))
  | fail c => some (c.method .fail)
  | naturalSuccess c => some (c.method .naturalSuccess)
  | naturalFail c => some (c.method .naturalFail)
  | totalCheck c => some (c.method .totalCheck)
  | boost _ | adjust _ | success _ => none

/-- The letters of the methods that are written to keep or drop dice. -/
def selectors : List TokenKind := [.keepHighest, .keepLowest, .dropHighest, .dropLowest]

/-- A modifier that is written as a method compares, or keeps or drops dice. -/
theorem Modifier.method?_cases {m : Modifier} {i : Item} (h : m.method? = some i) :
    (∃ letters ∈ tests, ∃ c ∈ m.condition?, i = c.method letters) ∨
      ∃ letters ∈ selectors, ∃ s, (m = keep s ∨ m = drop s) ∧ i = s.method letters := by
  cases m with
  | boost | adjust | success => contradiction
  | keep s =>
    exact .inr ⟨_, by cases s.layer <;> decide, s, .inl rfl, (Option.some.inj h).symm⟩
  | drop s =>
    exact .inr ⟨_, by cases s.layer <;> decide, s, .inr rfl, (Option.some.inj h).symm⟩
  | explode e =>
    refine .inl ⟨e.kind, ?_, e.condition, rfl, (Option.some.inj h).symm⟩
    unfold Explosion.kind
    cases e.compound <;> cases e.penetrate <;> decide
  | reroll r =>
    exact .inl ⟨_, by cases r.once <;> decide, r.condition, rfl, (Option.some.inj h).symm⟩
  | fail c | naturalSuccess c | naturalFail c | totalCheck c =>
    exact .inl ⟨_, by decide, c, rfl, (Option.some.inj h).symm⟩

/-- The sides of a die as a token. -/
def FaceSet.sides : FaceSet → Token
  | range n _ => numeral n
  | list faces ne => ⟨.faceList, ⟨0, 0⟩, (list faces ne).text.toList⟩

/-- The parts of the text of a specification. -/
def Spec.reading (s : Spec) : Reading where
  count := numeral s.count
  dice := word .dice
  sides := s.faces.sides
  boost? := (s.modifiers.boost?.filter fun b ↦ !b.isIdentity).map Boost.operation
  assigned := (s.modifiers.adjust?.filter fun a ↦ a ≠ 0).toList.map assignment
  evaluator? := s.modifiers.success?.map Condition.evaluator
  methods := s.modifiers.toList.filterMap Modifier.method?
  check? := none
  sign? := none

/-- Whether no condition of a specification has a negative threshold. -/
def Spec.Unsigned (s : Spec) : Prop :=
  ∀ m ∈ s.modifiers.toList, ∀ c ∈ m.condition?, 0 ≤ c.threshold

private theorem toList_ofInt_of_nonneg {x : Int} (h : 0 ≤ x) :
    (Numeral.ofInt x).toList = Numeral.digits x.toNat := by
  rw [Numeral.toList_ofInt, if_neg (Int.not_lt.mpr h), List.nil_append, ← Int.natAbs_of_nonneg h]
  rfl

/-- The symbol of an operator is the text of its kind. -/
theorem Arithmetic.text_word (o : Arithmetic) : (word o.kind).text = o.symbol.toList := by
  cases o <;> rfl

/-- The symbol of a comparison is the text of its kind. -/
theorem Comparison.text_word (c : Comparison) : (word c.kind).text = c.symbol.toList := by
  cases c <;> rfl

/-- The text of a condition is its symbol and its number. -/
theorem Condition.toList_text {c : Condition} (h : 0 ≤ c.threshold) :
    c.text.toList = (word c.comparison.kind).text ++ (numeral c.threshold.toNat).text := by
  rw [Condition.text, String.toList_append, toList_ofInt_of_nonneg h, Comparison.text_word]
  rfl

/-- The text of a boost is its symbol and its number. -/
theorem Boost.toList_text {b : Boost} (h : 0 ≤ b.magnitude) :
    b.text.toList = b.operation.tokens.flatMap Token.text := by
  rw [Boost.text, String.toList_append, toList_ofInt_of_nonneg h, ← Arithmetic.text_word]
  simp [operation, Operation.tokens, numeral]

/-- An adjustment is written as a sign after an equals sign and its magnitude. -/
theorem toList_text_assignment (a : Int) :
    ("=" ++ Numeral.signed a).toList = (assignment a).tokens.flatMap Token.text := by
  have plus : (word .equalPlus).text = ['=', '+'] := rfl
  have minus : (word .equalMinus).text = ['=', '-'] := rfl
  unfold Numeral.signed assignment
  split <;> simp [Operation.tokens, numeral, plus, minus]

/-- The text of a method that compares is its letters and its condition. -/
theorem Condition.flatMap_text_method {c : Condition} (letters : TokenKind)
    (h : 0 ≤ c.threshold) :
    (c.method letters).tokens.flatMap Token.text = (word letters).text ++ c.text.toList := by
  rw [c.toList_text h]
  simp [method, Item.tokens, Item.argument]

/-- The text of a method that keeps or drops dice is its letters and its count. -/
theorem Selection.flatMap_text_method (s : Selection) (letters : TokenKind) :
    (s.method letters).tokens.flatMap Token.text =
      (word letters).text ++ (Numeral.ofNat s.count).toList := by
  simp [method, Item.tokens, Item.argument, numeral]

/-- The letters before the condition of a modifier. -/
def Modifier.letters (m : Modifier) : List Token := (m.method?.map Item.letters).toList

/-- The text of a modifier that compares is its letters and its condition. -/
theorem Modifier.toList_modifierText {m : Modifier} {c : Condition} (hc : c ∈ m.condition?) :
    (Spec.modifierText m).toList = m.letters.flatMap Token.text ++ c.text.toList := by
  cases m with
  | boost | adjust | keep | drop => contradiction
  | success c' =>
    obtain rfl := Option.some.inj hc
    rfl
  | explode e =>
    obtain rfl := Option.some.inj hc
    have letters : (explode e).letters = [word e.kind] := rfl
    change e.text.toList = _
    rw [Explosion.text, letters, List.flatMap_singleton, Explosion.kind]
    cases e.compound <;> cases e.penetrate <;> simp <;> rfl
  | reroll r =>
    obtain rfl := Option.some.inj hc
    have letters : (reroll r).letters = [word (if r.once then .rerollOnce else .reroll)] := rfl
    change r.text.toList = _
    rw [Reroll.text, letters, List.flatMap_singleton]
    cases r.once <;> simp <;> rfl
  | fail c' | naturalSuccess c' | naturalFail c' | totalCheck c' =>
    obtain rfl := Option.some.inj hc
    exact String.toList_append

/-- The text of a modifier that is written as a method is that of the method. -/
theorem Modifier.flatMap_text_method? {m : Modifier} {i : Item} (hm : m.method? = some i)
    (h : ∀ c ∈ m.condition?, 0 ≤ c.threshold) :
    i.tokens.flatMap Token.text = (Spec.modifierText m).toList := by
  rcases method?_cases hm with ⟨k, _, c, hc, rfl⟩ | ⟨_, _, s, rfl | rfl, _⟩
  · rw [c.flatMap_text_method k (h c hc), toList_modifierText hc, letters, hm]
    simp [Condition.method]
  · obtain rfl := Option.some.inj hm
    change _ = ("k" ++ s.text).toList
    rw [s.flatMap_text_method, Selection.text]
    cases s.layer <;> simp [Layer.letter] <;> rfl
  · obtain rfl := Option.some.inj hm
    change _ = ("d" ++ s.text).toList
    rw [s.flatMap_text_method, Selection.text]
    cases s.layer <;> simp [Layer.letter] <;> rfl

/-- The tokens of the text of a modifier in an expression. -/
def Modifier.tokens : Modifier → List Token
  | boost b => if b.isIdentity then [] else b.operation.tokens
  | adjust a => if a = 0 then [] else (assignment a).tokens
  | success c => c.evaluator.tokens
  | m => m.method?.toList.flatMap Item.tokens

/-- The tokens of a modifier are joined to its text. -/
theorem Modifier.flatMap_text_tokens {m : Modifier} (bounded : m.Bounded)
    (h : ∀ c ∈ m.condition?, 0 ≤ c.threshold) :
    m.tokens.flatMap Token.text = (Spec.modifierText m).toList := by
  cases m with
  | boost b =>
    change List.flatMap _ (if b.isIdentity then [] else b.operation.tokens) =
      (if b.isIdentity then "" else b.text).toList
    split
    · rfl
    · exact (Boost.toList_text bounded.1).symm
  | adjust a =>
    change List.flatMap _ (if a = 0 then [] else (assignment a).tokens) =
      (if a = 0 then "" else "=" ++ Numeral.signed a).toList
    split
    · rfl
    · exact (toList_text_assignment a).symm
  | success c =>
    change c.evaluator.tokens.flatMap Token.text = c.text.toList
    rw [c.toList_text (h c rfl)]
    simp [Condition.evaluator, Evaluator.tokens]
  | _ =>
    refine Eq.trans ?_ (flatMap_text_method? rfl h)
    exact congrArg (List.flatMap Token.text) (List.append_nil _)

/-- A method that sets a modifier is a phrase. -/
theorem Modifier.phrase_method? {m : Modifier} {i : Item} (hm : m.method? = some i) :
    Phrase i.tokens := by
  rcases method?_cases hm with ⟨letters, hl, c, _, rfl⟩ | ⟨letters, hl, s, _, rfl⟩
  · have letter : letters.spelling?.isSome = true ∧ charClass letters = .letter := by
      revert hl
      cases letters <;> decide
    refine phrase_word_word_numeral letter.1 c.comparison.isSome_spelling? ?_ _
    rw [letter.2, c.comparison.charClass_kind]
    decide
  · refine phrase_word_numeral ?_ _
    revert hl
    cases letters <;> decide

/-- An assigned sign is a phrase. -/
theorem phrase_assignment (a : Int) : Phrase (assignment a).tokens := by
  rw [assignment]
  split <;> exact phrase_word_numeral (by decide) _

/-- The tokens of a modifier are a phrase. -/
theorem Modifier.phrase_tokens (m : Modifier) : Phrase m.tokens := by
  cases m with
  | boost b =>
    rw [tokens]
    split
    · exact .nil
    · exact phrase_word_numeral b.operator.isSome_spelling? _
  | adjust a =>
    rw [tokens]
    split
    · exact .nil
    · exact phrase_assignment a
  | success c => exact phrase_word_numeral c.comparison.isSome_spelling? _
  | _ => exact Phrase.flatMap fun i hi ↦ phrase_method? (Option.mem_toList.mp hi)

namespace Modifiers

/-- The modifiers in order, the first three apart. -/
theorem toList_eq (m : Modifiers) :
    m.toList = (m.boost?.map Modifier.boost).toList ++ ((m.adjust?.map Modifier.adjust).toList ++
      ((m.success?.map Modifier.success).toList ++ (ModifierKind.all.drop 3).filterMap m.get?)) := by
  have cons (k : ModifierKind) (ks : List ModifierKind) :
      (k :: ks).filterMap m.get? = (m.get? k).toList ++ ks.filterMap m.get? := by
    rw [List.filterMap_cons]
    cases m.get? k <;> rfl
  rw [toList, ModifierKind.all, cons, cons, cons]
  rfl

/-- The modifiers are in the order of their kinds. -/
theorem sublist_kinds (m : Modifiers) :
    (m.toList.map Modifier.kind).Sublist ModifierKind.all := by
  unfold toList
  generalize ModifierKind.all = ks
  induction ks with
  | nil => exact List.Sublist.slnil
  | cons k ks ih =>
    rw [List.filterMap_cons]
    cases hx : m.get? k with
    | none => exact ih.cons k
    | some x =>
      rw [List.map_cons, kind_of_get? hx]
      exact ih.cons_cons k

private theorem kind_mem_of_mem {m : Modifiers} {ks : List ModifierKind} {x : Modifier}
    (h : x ∈ ks.filterMap m.get?) : x.kind ∈ ks := by
  obtain ⟨k, hk, hx⟩ := List.mem_filterMap.mp h
  exact kind_of_get? hx ▸ hk

/-- Of each kind the list has the modifier of this kind. -/
theorem filter_toList (m : Modifiers) (k : ModifierKind) :
    (m.toList.filter fun x ↦ x.kind = k) = (m.get? k).toList := by
  have kinds {ks : List ModifierKind} (nodup : ks.Nodup) :
      ((ks.filterMap m.get?).filter fun x ↦ x.kind = k) =
        if k ∈ ks then (m.get? k).toList else [] := by
    induction ks with
    | nil => rfl
    | cons k' ks ih =>
      obtain ⟨fresh, nodup⟩ := List.nodup_cons.mp nodup
      rw [List.filterMap_cons]
      by_cases hk : k' = k
      · subst hk
        rw [if_neg fresh] at ih
        cases hx : m.get? k' with
        | none => simp [ih nodup]
        | some x => simp [ih nodup, kind_of_get? hx]
      · have mem : k ∈ k' :: ks ↔ k ∈ ks := by simp [Ne.symm hk]
        rw [if_congr mem rfl rfl, ← ih nodup]
        cases hx : m.get? k' with
        | none => rfl
        | some x => simp [kind_of_get? hx, hk]
  rw [toList, kinds (by decide), if_pos (ModifierKind.mem_all k)]

end Modifiers

namespace Modifiers

/-- The methods that modifiers are written as, where only those after the first three are. -/
theorem flatMap_filterMap_toList (m : Modifiers) {f : Modifier → Option Item}
    {g : Modifier → List Token} (hf : ∀ x : Modifier, x.method? = none → f x = none)
    (hg : ∀ x : Modifier, x.method?.isSome = true → (f x).toList.flatMap Item.tokens = g x) :
    (m.toList.filterMap f).flatMap Item.tokens =
      ((ModifierKind.all.drop 3).filterMap m.get?).flatMap g := by
  have flatMap (ms : List Modifier) : (ms.filterMap f).flatMap Item.tokens =
      ms.flatMap fun x ↦ (f x).toList.flatMap Item.tokens := by
    induction ms with
    | nil => rfl
    | cons x ms ih =>
      rw [List.filterMap_cons, List.flatMap_cons, ← ih]
      cases f x <;> simp
  have first {α : Type} (x? : Option α) (k : α → Modifier) (hk : ∀ x, (k x).method? = none) :
      (x?.map k).toList.filterMap f = [] := by
    cases x? with
    | none => rfl
    | some x => simp [hf _ (hk x)]
  rw [m.toList_eq, List.filterMap_append, List.filterMap_append, List.filterMap_append,
    first m.boost? _ fun _ ↦ rfl, first m.adjust? _ fun _ ↦ rfl, first m.success? _ fun _ ↦ rfl,
    List.nil_append, List.nil_append, List.nil_append, flatMap]
  apply List.flatMap_congr
  intro x hx
  have kind := kind_mem_of_mem hx
  apply hg
  cases x with
  | boost | adjust | success => simp [Modifier.kind, ModifierKind.all] at kind
  | _ => rfl

/-- The boost that is written. -/
theorem optional_boost (m : Modifiers) :
    Grammar.optional ((m.boost?.filter fun b ↦ !b.isIdentity).map Boost.operation) =
      (m.boost?.map Modifier.boost).toList.flatMap Modifier.tokens := by
  cases m.boost? with
  | none => rfl
  | some b =>
    cases hb : b.isIdentity <;> simp [Option.filter, Modifier.tokens, hb, Grammar.optional]

/-- The adjustment that is written. -/
theorem flatMap_assignment (m : Modifiers) :
    ((m.adjust?.filter fun a ↦ a ≠ 0).toList.map assignment).flatMap Operation.tokens =
      (m.adjust?.map Modifier.adjust).toList.flatMap Modifier.tokens := by
  cases m.adjust? with
  | none => rfl
  | some a => by_cases ha : a = 0 <;> simp [Option.filter, Modifier.tokens, ha]

end Modifiers

/-- The tokens of the reading are those of the modifiers in order. -/
theorem Spec.afterSides_reading (s : Spec) :
    s.reading.afterSides = s.modifiers.toList.flatMap Modifier.tokens := by
  obtain ⟨count, faces, m, substitutions⟩ := s
  have success : (m.success?.map Condition.evaluator).toList.flatMap Evaluator.tokens =
      (m.success?.map Modifier.success).toList.flatMap Modifier.tokens := by
    cases m.success? <;> rfl
  have methods := m.flatMap_filterMap_toList (f := Modifier.method?) (g := Modifier.tokens)
    (fun _ ↦ id) fun x hx ↦ by cases x <;> first | rfl | contradiction
  rw [m.toList_eq, List.flatMap_append, List.flatMap_append, List.flatMap_append,
    ← m.optional_boost, ← m.flatMap_assignment, ← success, ← methods]
  have none : Grammar.optional Option.none = [] := rfl
  simp only [reading, Reading.afterSides, Reading.afterBoost, Reading.afterAssigned,
    Reading.afterEvaluator, Reading.afterMethods, Reading.afterCheck, none, List.append_nil]

namespace FaceSet

/-- Sides are written as a number or a face list. -/
theorem kind_sides (faces : FaceSet) :
    faces.sides.kind = .integer ∨ faces.sides.kind = .faceList := by
  cases faces with
  | range n valid => exact .inl rfl
  | list faces valid => exact .inr rfl

/-- The text of the sides is that of the faces. -/
theorem text_sides (faces : FaceSet) : faces.sides.text = faces.text.toList := by
  cases faces with
  | range n valid => exact (Numeral.toList_ofNat n).symm
  | list faces valid => rfl

variable {faces : FaceSet} (h : faces.Written)

include h

/-- Sides have the form of their kind. -/
theorem form_sides : Form faces.sides.kind faces.sides.text := by
  cases faces with
  | range n valid => exact form_numeral n
  | list faces valid => exact form_text h

/-- Written sides are read as their faces. -/
theorem sides_sides : Expression.sides faces.sides = .ok faces := by
  cases faces with
  | range n valid =>
    have small : ¬maxSides < n := Nat.not_lt.mpr h
    have made : ofSides? n = some (.range n valid) := dif_pos valid
    simp [sides, Expression.sides, small, made]
  | list faces valid =>
    simp [sides, Expression.sides, ofText?_text h]

end FaceSet

namespace Spec

variable {s : Spec}

/-- The modifiers of a specification that can be written are within the limits. -/
theorem Bounded.of_mem (h : s.Bounded) {m : Modifier} (hm : m ∈ s.modifiers.toList) :
    m.Bounded :=
  h.modifiers m.kind m (Modifiers.mem_toList_iff.mp hm)

/-- The boost of a specification that can be written is within the limits. -/
theorem Bounded.boost (h : s.Bounded) {b : Boost} (hb : s.modifiers.boost? = some b) :
    (Modifier.boost b).Bounded :=
  h.modifiers .boost _ (congrArg (Option.map Modifier.boost) hb)

/-- The adjustment of a specification that can be written is within the limits. -/
theorem Bounded.adjust (h : s.Bounded) {a : Int} (ha : s.modifiers.adjust? = some a) :
    a.natAbs ≤ maxLiteral :=
  h.modifiers .adjust _ (congrArg (Option.map Modifier.adjust) ha)

/-- The success threshold of a specification that can be written could be a face. -/
theorem Bounded.success (h : s.Bounded) {c : Condition} (hc : s.modifiers.success? = some c) :
    Face.Listable c.threshold :=
  h.modifiers .success _ (congrArg (Option.map Modifier.success) hc) c rfl

/-- The tokens of the head and those of the modifiers are joined to the text. -/
theorem joined_head {ts : List Token}
    (h : ts.flatMap Token.text = s.modifiers.toList.flatMap fun m ↦ (modifierText m).toList) :
    Token.joined ([numeral s.count, word .dice, s.faces.sides] ++ ts) = s.text := by
  have head : ([numeral s.count, word .dice, s.faces.sides] ++ ts).flatMap Token.text =
      Numeral.digits s.count ++ ('d' :: (s.faces.text.toList ++
        s.modifiers.toList.flatMap fun m ↦ (modifierText m).toList)) := by
    rw [← h, ← s.faces.text_sides]
    rfl
  rw [Token.joined, head, ← String.toList_inj, String.toList_ofList, text]
  simp [String.toList_join, List.flatMap_map]

/-- The tokens of the head are pieces before sealed tokens. -/
theorem pieces_head (h : s.faces.Written) {ts : List Token} (sealed : Sealed ts) :
    Pieces [] ([numeral s.count, word .dice, s.faces.sides] ++ ts) := by
  have sides := s.faces.form_sides h
  have classes : charClass .dice ≠ charClass .integer := by decide
  have count : Apart (numeral s.count) (word .dice) := fun _ ↦ classes
  have dice : Apart (word .dice) s.faces.sides := by
    intro _
    rcases s.faces.kind_sides with hk | hk <;> rw [hk] <;> decide
  refine pieces_append.mpr ⟨⟨?_, ?_, ?_, trivial⟩, sealed.pieces [] (by simp [NoDigitFirst])⟩
  · exact count.piece (form_numeral _) (form_word rfl) _
  · rw [List.flatMap_singleton]
    exact dice.piece (form_word rfl) sides _
  · apply sides.piece
    intro hk c hc d hd
    have number : s.faces.sides.kind = .integer := s.faces.kind_sides.resolve_right hk
    rw [number] at sides
    have digit := sides.isDigit_of_mem hd
    have other := sealed.first c (by simpa using hc)
    rw [← classOf_eq_digit_iff] at digit
    rw [digit, Ne, classOf_eq_digit_iff, other]
    decide

/-- The tokens of the reading are joined to the text. -/
theorem joined_reading (h : s.Bounded) (unsigned : s.Unsigned) :
    Token.joined s.reading.tokens = s.text := by
  have modifiers : s.reading.afterSides.flatMap Token.text =
      s.modifiers.toList.flatMap fun m ↦ (modifierText m).toList := by
    rw [s.afterSides_reading, List.flatMap_assoc]
    exact List.flatMap_congr fun m hm ↦ m.flatMap_text_tokens (h.of_mem hm) (unsigned m hm)
  exact joined_head modifiers

/-- The tokens of the reading are the pieces of the text. -/
theorem pieces_reading (h : s.Bounded) : Pieces [] s.reading.tokens := by
  have phrase : Phrase s.reading.afterSides := by
    rw [s.afterSides_reading]
    exact Phrase.flatMap fun m _ ↦ m.phrase_tokens
  exact pieces_head h.faces phrase.sealed

end Spec

/-- The letter of the dice stands in no modifier. -/
theorem Modifier.kind_ne_dice (m : Modifier) : ∀ t ∈ m.tokens, t.kind ≠ .dice := by
  have comparison (c : Condition) : c.comparison.kind ≠ .dice := by
    cases c.comparison <;> decide
  cases m with
  | boost b =>
    have operator : b.operator.kind ≠ .dice := by cases b.operator <;> decide
    rw [tokens]
    split
    · simp
    · simpa [Boost.operation, Operation.tokens] using operator
  | adjust a =>
    rw [tokens, assignment]
    split
    · simp
    · split <;> simp [Operation.tokens]
  | success c => simpa [tokens, Condition.evaluator, Evaluator.tokens] using comparison c
  | _ =>
    intro t ht
    obtain ⟨i, hi, ht⟩ := List.mem_flatMap.mp ht
    rcases method?_cases (Option.mem_toList.mp hi) with
      ⟨letters, hl, c, _, rfl⟩ | ⟨letters, hl, s, _, rfl⟩
    · have first : letters ≠ .dice := by
        rintro rfl
        exact absurd hl (by decide)
      have apart : ∀ t ∈ (c.method letters).tokens, t.kind ≠ .dice := by
        simpa [Condition.method, Item.tokens, Item.argument] using ⟨first, comparison c⟩
      exact apart t ht
    · have first : letters ≠ .dice := by
        rintro rfl
        exact absurd hl (by decide)
      have apart : ∀ t ∈ (s.method letters).tokens, t.kind ≠ .dice := by
        simpa [Selection.method, Item.tokens, Item.argument] using first
      exact apart t ht

end DicePool
