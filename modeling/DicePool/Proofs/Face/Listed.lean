import DicePool.Face
import DicePool.Proofs.Text.Blank
import DicePool.Proofs.Text.Numeral
import DicePool.Proofs.Token.Piece

/-!
# Listed faces

The faces of a list are integers of bounded magnitude, or the least integer of 64 bits, and labels
of letters and numerals that are not digits alone. Their texts are read back as the same faces, one
by one and as a list.
-/

namespace DicePool

namespace Face

/-- Whether a face can stand in a list. -/
def Listed : Face → Prop
  | number v => ∃ n : Int, v = n ∧ Listable n
  | label s => s.toList ≠ [] ∧ (∀ c ∈ s.toList, Text.isAlphanumeric c = true) ∧
      ¬∀ c ∈ s.toList, c.isDigit = true

private theorem minus_not_alphanumeric : Text.isAlphanumeric '-' = false := by decide +kernel

/-- A face that is read can stand in a list. -/
theorem listed_of_ofAtom? {atom : List Char} {f : Face} (h : ofAtom? atom = some f) :
    f.Listed := by
  unfold ofAtom? at h
  generalize Text.trim atom = cs at h
  simp only at h
  generalize hd : (if cs.head? = some '-' then cs.drop 1 else cs) = digits at h
  by_cases all : digits ≠ [] ∧ digits.all Char.isDigit = true
  · rw [if_pos all] at h
    generalize (if cs.head? = some '-' then -(Numeral.value digits : Int)
      else Numeral.value digits) = n at h
    by_cases listable : Listable n
    · rw [if_pos listable, Option.some.injEq] at h
      rw [← h]
      exact ⟨n, rfl, listable⟩
    · rw [if_neg listable] at h
      contradiction
  · rw [if_neg all] at h
    by_cases label : cs ≠ [] ∧ cs.all Text.isAlphanumeric = true
    · rw [if_pos label, Option.some.injEq] at h
      obtain ⟨ne, alphanumeric⟩ := label
      rw [List.all_eq_true] at alphanumeric
      have sign : cs.head? ≠ some '-' := fun hd ↦ by
        have minus := alphanumeric '-' (List.mem_of_mem_head? hd)
        rw [minus_not_alphanumeric] at minus
        contradiction
      rw [if_neg sign] at hd
      subst hd
      rw [← h, Listed, String.toList_ofList]
      exact ⟨ne, alphanumeric, fun digits ↦ all ⟨ne, List.all_eq_true.mpr digits⟩⟩
    · rw [if_neg label] at h
      contradiction

private theorem digit_not_blank {c : Char} (h : c.isDigit = true) : Text.isBlank c = false := by
  by_contra blank
  have point := Text.mem_blankPoints_of_isBlank (by simpa using blank)
  have digit : 48 ≤ c.toNat ∧ c.toNat ≤ 57 := by
    simpa [Char.isDigit, UInt32.le_iff_toNat_le] using h
  simp only [Text.blankPoints, List.mem_cons, List.not_mem_nil, or_false] at point
  omega

private theorem ofAtom?_integer {n : Int} (h : Listable n) :
    ofAtom? (Numeral.ofInt n).toList = some (number n) := by
  have digits : Numeral.digits n.natAbs ≠ [] ∧
      (Numeral.digits n.natAbs).all Char.isDigit = true :=
    ⟨Numeral.digits_ne_nil _, List.all_eq_true.mpr fun c hc ↦ Numeral.isDigit_of_mem_digits hc⟩
  have visible (c : Char) (hc : c ∈ Numeral.digits n.natAbs) : Text.isBlank c = false :=
    digit_not_blank (Numeral.isDigit_of_mem_digits hc)
  rw [Numeral.toList_ofInt]
  by_cases negative : n < 0
  · have trimmed : Text.trim ('-' :: Numeral.digits n.natAbs) = '-' :: Numeral.digits n.natAbs :=
      Text.trim_of_forall (List.forall_mem_cons.mpr ⟨by decide, visible⟩)
    have value : -(n.natAbs : Int) = n := by omega
    simp only [if_pos negative, List.singleton_append, ofAtom?, trimmed, List.head?_cons, if_true,
      List.drop_succ_cons, List.drop_zero, if_pos digits, Numeral.value_digits, value, if_pos h]
  · have trimmed := Text.trim_of_forall visible
    have unsigned : (Numeral.digits n.natAbs).head? ≠ some '-' := fun hd ↦ by
      have minus := Numeral.isDigit_of_mem_digits (List.mem_of_mem_head? hd)
      contradiction
    have value : (n.natAbs : Int) = n := by omega
    simp only [if_neg negative, List.nil_append, ofAtom?, trimmed, if_neg unsigned, if_pos digits,
      Numeral.value_digits, value, if_pos h]

private theorem ofAtom?_label {s : String} (h : (label s).Listed) :
    ofAtom? s.toList = some (label s) := by
  obtain ⟨ne, alphanumeric, digits⟩ := h
  have sign : s.toList.head? ≠ some '-' := fun hd ↦ by
    have minus := alphanumeric '-' (List.mem_of_mem_head? hd)
    rw [minus_not_alphanumeric] at minus
    contradiction
  have trimmed : Text.trim s.toList = s.toList :=
    Text.trim_of_forall fun c hc ↦ Text.isBlank_of_isAlphanumeric (alphanumeric c hc)
  have notAll : ¬s.toList.all Char.isDigit = true := mt List.all_eq_true.mp digits
  simp only [ofAtom?, trimmed, if_neg sign]
  rw [if_neg fun h ↦ notAll h.2, if_pos ⟨ne, List.all_eq_true.mpr alphanumeric⟩,
    String.ofList_toList]

/-- The text of a face that can stand in a list is read as this face. -/
theorem ofAtom?_text {f : Face} (h : f.Listed) : ofAtom? f.text.toList = some f := by
  cases f with
  | number v =>
    obtain ⟨n, rfl, listable⟩ := h
    rw [text, Value.text_intCast]
    exact ofAtom?_integer listable
  | label s => exact ofAtom?_label h

/-- The text of a face that can stand in a list is not empty, and has no blanks, commas or braces.
-/
theorem Listed.plain {f : Face} (h : f.Listed) :
    f.text.toList ≠ [] ∧
      ∀ c ∈ f.text.toList, Text.isBlank c = false ∧ c ≠ ',' ∧ c ≠ '\x7b' ∧ c ≠ '\x7d' := by
  cases f with
  | number v =>
    obtain ⟨n, rfl, _⟩ := h
    rw [text, Value.text_intCast, Numeral.toList_ofInt]
    refine ⟨List.append_ne_nil_of_right_ne_nil _ (Numeral.digits_ne_nil _), fun c hc ↦ ?_⟩
    rcases List.mem_append.mp hc with hc | hc
    · split at hc
      · rw [List.mem_singleton.mp hc]
        decide
      · contradiction
    · have digit := Numeral.isDigit_of_mem_digits hc
      refine ⟨digit_not_blank digit, ?_, ?_, ?_⟩ <;> rintro rfl <;> contradiction
  | label s =>
    obtain ⟨ne, alphanumeric, _⟩ := h
    refine ⟨ne, fun c hc ↦ ⟨Text.isBlank_of_isAlphanumeric (alphanumeric c hc), ?_⟩⟩
    refine ⟨?_, ?_, ?_⟩ <;> rintro rfl <;>
      exact absurd (alphanumeric _ hc) (Bool.eq_false_iff.mp (by decide +kernel))

end Face

namespace FaceSet

private theorem atoms_append_comma {cs rest : List Char} (h : ∀ c ∈ cs, c ≠ ',') :
    atoms (cs ++ ',' :: rest) = cs :: atoms rest := by
  induction cs with
  | nil => rfl
  | cons c cs ih =>
    rw [List.forall_mem_cons] at h
    rw [List.cons_append, atoms, if_neg h.1, ih h.2]

private theorem atoms_of_forall {cs : List Char} (h : ∀ c ∈ cs, c ≠ ',') : atoms cs = [cs] := by
  induction cs with
  | nil => rfl
  | cons c cs ih =>
    rw [List.forall_mem_cons] at h
    rw [atoms, if_neg h.1, ih h.2]

/-- Parts without commas, joined by commas, are these parts again. -/
theorem atoms_intercalate {parts : List (List Char)} (h : ∀ p ∈ parts, ∀ c ∈ p, c ≠ ',')
    (ne : parts ≠ []) : atoms ([','].intercalate parts) = parts := by
  induction parts with
  | nil => contradiction
  | cons p parts ih =>
    rw [List.forall_mem_cons] at h
    cases parts with
    | nil => rw [List.intercalate_singleton, atoms_of_forall h.1]
    | cons q parts =>
      rw [List.intercalate_cons_cons, List.append_assoc, List.singleton_append,
        atoms_append_comma h.1, ih h.2 (List.cons_ne_nil _ _)]

private theorem mem_intercalate {parts : List (List Char)} {c : Char}
    (h : c ∈ [','].intercalate parts) : c = ',' ∨ ∃ p ∈ parts, c ∈ p := by
  induction parts with
  | nil => simp at h
  | cons p parts ih =>
    cases parts with
    | nil => exact .inr ⟨p, List.mem_cons_self, by simpa using h⟩
    | cons q parts =>
      rw [List.intercalate_cons_cons, List.mem_append, List.mem_append, List.mem_singleton] at h
      rcases h with (h | rfl) | h
      · exact .inr ⟨p, List.mem_cons_self, h⟩
      · exact .inl rfl
      · exact (ih h).imp_right fun ⟨r, hr, hc⟩ ↦ ⟨r, List.mem_cons_of_mem _ hr, hc⟩

/-- Whether a set of faces can stand in an expression. -/
def Written : FaceSet → Prop
  | range sides _ => sides ≤ maxSides
  | list faces _ => ∀ f ∈ faces, f.Listed

/-- Whether the least integer is not among the faces. -/
def Literal : FaceSet → Prop
  | range _ _ => True
  | list faces _ => .number (-9223372036854775808) ∉ faces

/-- Whether the magnitudes of all numbers on the faces are bounded. -/
def Small : FaceSet → Prop
  | range sides _ => sides ≤ maxSides
  | list faces _ => ∀ v : Value, .number v ∈ faces → ∃ n : Int, v = n ∧ n.natAbs ≤ maxLiteral

/-- Of the numbers that can be listed, only the least integer is not bounded. -/
theorem Written.small {faces : FaceSet} (h : faces.Written) (literal : faces.Literal) :
    faces.Small := by
  cases faces with
  | range sides valid => exact h
  | list faces valid =>
    intro v hv
    obtain ⟨n, rfl, listable⟩ := h _ hv
    obtain small | rfl := Face.listable_iff.mp listable
    · exact ⟨n, rfl, small⟩
    · push_cast at hv
      exact absurd hv literal

private theorem toList_text_list {faces : List Face}
    {valid : faces ≠ [] ∧ ∀ f ∈ faces, f.Narrow} :
    (list faces valid).text.toList =
      '\x7b' :: [','].intercalate (faces.map fun f ↦ f.text.toList) ++ ['\x7d'] := by
  simp [text, String.toList_intercalate, Function.comp_def]

private theorem listed_of_mapM {parts : List (List Char)} {faces : List Face}
    (h : parts.mapM Face.ofAtom? = some faces) : ∀ f ∈ faces, f.Listed := by
  induction parts generalizing faces with
  | nil =>
    cases h
    simp
  | cons p parts ih =>
    simp only [List.mapM_cons, Option.bind_eq_bind, Option.bind_eq_some_iff] at h
    obtain ⟨f, hf, rest, hr, same⟩ := h
    cases same
    exact List.forall_mem_cons.mpr ⟨Face.listed_of_ofAtom? hf, ih hr⟩

private theorem mapM_text {faces : List Face} (h : ∀ f ∈ faces, f.Listed) :
    (faces.map fun f ↦ f.text.toList).mapM Face.ofAtom? = some faces := by
  induction faces with
  | nil => rfl
  | cons f faces ih =>
    rw [List.forall_mem_cons] at h
    rw [List.map_cons, List.mapM_cons, Face.ofAtom?_text h.1, ih h.2]
    rfl

private theorem ofText?_eq_some {cs : List Char} {faces : FaceSet} :
    ofText? cs = some faces ↔
      ∃ body, body? cs = some body ∧ Text.trim body ≠ [] ∧
        ∃ fs, (atoms body).mapM Face.ofAtom? = some fs ∧ ofFaces? fs = some faces := by
  simp only [ofText?, Option.bind_eq_bind, Option.bind_eq_some_iff]
  refine exists_congr fun body ↦ and_congr_right fun _ ↦ ?_
  by_cases blank : Text.trim body = [] <;> simp [blank, Option.bind_eq_some_iff]

/-- Faces that are read can stand in an expression. -/
theorem written_of_ofText? {cs : List Char} {faces : FaceSet} (h : ofText? cs = some faces) :
    faces.Written := by
  obtain ⟨_, _, _, fs, parts, made⟩ := ofText?_eq_some.mp h
  unfold ofFaces? at made
  split at made
  · cases made
    exact listed_of_mapM parts
  · contradiction

section List

variable {faces : List Face} {valid : faces ≠ [] ∧ ∀ f ∈ faces, f.Narrow}
  (h : (list faces valid).Written)

include h

/-- The text of a list is read as this list. -/
theorem ofText?_text : ofText? (list faces valid).text.toList = some (list faces valid) := by
  have ne := valid.1
  rw [toList_text_list, ofText?_eq_some]
  refine ⟨[','].intercalate (faces.map fun f ↦ f.text.toList), ?_, ?_, faces, ?_, dif_pos valid⟩
  · simp [body?]
  · obtain ⟨f, rest, rfl⟩ := List.exists_cons_of_ne_nil ne
    obtain ⟨visible, plain⟩ := (h f List.mem_cons_self).plain
    obtain ⟨c, hc⟩ := List.exists_mem_of_ne_nil _ visible
    refine Text.trim_ne_nil (c := c) ?_ (plain c hc).1
    cases rest <;> simp [hc]
  · rw [atoms_intercalate ?_ (by simpa using ne), mapM_text h]
    rw [List.forall_mem_map]
    exact fun f hf c hc ↦ ((h f hf).plain.2 c hc).2.1

/-- The text of a list is a text without braces in braces. -/
theorem form_text : Token.Form .faceList (list faces valid).text.toList := by
  rw [toList_text_list]
  refine .faceList fun c hc ↦ ?_
  rcases mem_intercalate hc with rfl | ⟨part, mem, hc⟩
  · decide
  · obtain ⟨f, hf, rfl⟩ := List.mem_map.mp mem
    exact ((h f hf).plain.2 c hc).2.2

end List

end FaceSet

end DicePool
