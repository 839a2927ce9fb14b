import DicePool.Proofs.Text.Numeral
import DicePool.Report
import Mathlib.Algebra.Ring.Rat
import Mathlib.Data.Rat.Defs

/-!
# Reading distributions back

The report on a distribution is read back: between its quotes stand the outcomes and their masses
in turn, numerals or fractions in lowest terms, which quotes, commas and colons are no part of. So
reports are the same only for the same distribution, and no two outcomes share a name.
-/

namespace DicePool

namespace Numeral

/-- Reads a run of digits. -/
def read? (cs : List Char) : Option Nat :=
  if cs ≠ [] ∧ cs.all Char.isDigit then some (value cs) else none

/-- Reads a run of digits, with a minus sign before a negative number. -/
def readInt? : List Char → Option Int
  | '-' :: cs => (read? cs).map fun n : Nat ↦ -(n : Int)
  | cs => (read? cs).map fun n : Nat ↦ (n : Int)

/-- A numeral is read back. -/
theorem read?_digits (n : Nat) : read? (digits n) = some n := by
  have all : (digits n).all Char.isDigit = true :=
    List.all_eq_true.mpr fun _ hc ↦ isDigit_of_mem_digits hc
  rw [read?, if_pos ⟨digits_ne_nil n, all⟩, value_digits]

/-- An integer is read back. -/
theorem readInt?_ofInt (x : Int) : readInt? (ofInt x).toList = some x := by
  rw [toList_ofInt]
  by_cases negative : x < 0
  · have size : -(x.natAbs : Int) = x := by omega
    rw [if_pos negative, List.singleton_append, readInt?, read?_digits, Option.map_some, size]
  · have size : (x.natAbs : Int) = x := Int.natAbs_of_nonneg (Int.not_lt.mp negative)
    rw [if_neg negative, List.nil_append]
    unfold readInt?
    split
    · next minus =>
      have digit : '-'.isDigit = true := isDigit_of_mem_digits (minus ▸ List.mem_cons_self)
      contradiction
    · rw [read?_digits, Option.map_some, size]

end Numeral

namespace Value

/-- Reads a fraction: an integer, or two with a slash between them. -/
def read? (cs : List Char) : Option Value :=
  match cs.splitOn '/' with
  | [num] => (Numeral.readInt? num).map fun n : Int ↦ (n : Value)
  | [num, den] =>
    (Numeral.readInt? num).bind fun n ↦
      (Numeral.read? den).map fun d : Nat ↦ (n : Value) / (d : Value)
  | _ => none

private theorem slash_notMem_ofInt (x : Int) : '/' ∉ (Numeral.ofInt x).toList := by
  rw [Numeral.toList_ofInt]
  intro h
  rcases List.mem_append.mp h with sign | digit
  · split at sign <;> simp at sign
  · exact absurd (Numeral.isDigit_of_mem_digits digit) (by decide)

private theorem slash_notMem_digits (n : Nat) : '/' ∉ Numeral.digits n :=
  fun h ↦ absurd (Numeral.isDigit_of_mem_digits h) (by decide)

/-- A fraction in lowest terms is read back. -/
theorem read?_text (q : Value) : read? (Value.text q).toList = some q := by
  unfold Value.text
  split
  · next whole =>
    rw [read?, List.splitOn_eq_singleton (slash_notMem_ofInt q.num)]
    simp [Numeral.readInt?_ofInt, Rat.coe_int_num_of_den_eq_one whole]
  · have parts : (Numeral.ofInt q.num ++ "/" ++ Numeral.ofNat q.den).toList.splitOn '/' =
        [(Numeral.ofInt q.num).toList, Numeral.digits q.den] := by
      simp only [String.toList_append, Numeral.toList_ofNat, List.append_assoc]
      change ((Numeral.ofInt q.num).toList ++ '/' :: Numeral.digits q.den).splitOn '/' = _
      rw [List.splitOn_append_cons_self_of_not_mem (slash_notMem_ofInt q.num),
        List.splitOn_eq_singleton (slash_notMem_digits q.den)]
    rw [read?, parts]
    simp [Numeral.readInt?_ofInt, Numeral.read?_digits, Rat.num_div_den]

end Value

namespace Json

/-- Whether a string holds nothing that is escaped. -/
def Verbatim (cs : List Char) : Prop := ∀ c ∈ cs, c ≠ '\"' ∧ c ≠ '\\' ∧ 0x20 ≤ c.toNat

instance (cs : List Char) : Decidable (Verbatim cs) :=
  List.decidableBAll (fun c ↦ c ≠ '\"' ∧ c ≠ '\\' ∧ 0x20 ≤ c.toNat) cs

/-- A string holds nothing that is escaped if its parts do not. -/
theorem verbatim_append {cs ds : List Char} : Verbatim (cs ++ ds) ↔ Verbatim cs ∧ Verbatim ds :=
  List.forall_mem_append

/-- A string without anything to escape is written as it is. -/
theorem escaped_of_verbatim {s : String} (h : Verbatim s.toList) :
    escaped s = '\"' :: s.toList ++ ['\"'] := by
  have same : s.toList.flatMap escapedChar = s.toList.flatMap fun c ↦ [c] := by
    refine List.flatMap_congr fun c hc ↦ ?_
    obtain ⟨quote, slash, visible⟩ := h c hc
    unfold escapedChar
    split
    case h_8 => rw [if_neg (Nat.not_lt.mpr visible)]
    all_goals contradiction
  rw [escaped, same, List.flatMap_singleton']

/-- Reads the members of an object of strings from the parts of its text between quotes. -/
def readMembers? : List (List Char) → Option (List (List Char × List Char))
  | [name, [':'], value, ['\x7d']] => some [(name, value)]
  | name :: [':'] :: value :: [','] :: rest => (readMembers? rest).map ((name, value) :: ·)
  | _ => none

/-- Reads an object of strings in which nothing is escaped. -/
def readObject? (cs : List Char) : Option (List (List Char × List Char)) :=
  match cs.splitOn '\"' with
  | [['\x7b', '\x7d']] => some []
  | ['\x7b'] :: parts => readMembers? parts
  | _ => none

/-- An object of strings. -/
def ofStrings (fields : List (String × String)) : Json :=
  .object (fields.map fun f ↦ (f.1, .string f.2))

/-- Without escapes a string has no quotes. -/
private theorem Verbatim.quote_notMem {cs : List Char} (h : Verbatim cs) : '\"' ∉ cs :=
  fun hc ↦ (h _ hc).1 rfl

private theorem splitOn_member {name value : List Char} (hn : Verbatim name) (hv : Verbatim value)
    (tail : List Char) :
    (name ++ '\"' :: ([':'] ++ '\"' :: (value ++ '\"' :: tail))).splitOn '\"' =
      name :: [':'] :: value :: tail.splitOn '\"' := by
  rw [List.splitOn_append_cons_self_of_not_mem hn.quote_notMem,
    List.splitOn_append_cons_self_of_not_mem (by decide),
    List.splitOn_append_cons_self_of_not_mem hv.quote_notMem]

private theorem readMembers?_writeFields {f : String × String} {fields : List (String × String)}
    (h : ∀ g ∈ f :: fields, Verbatim g.1.toList ∧ Verbatim g.2.toList) :
    ∃ body, writeFields ((f :: fields).map fun g ↦ (g.1, .string g.2)) ++ ['\x7d'] = '\"' :: body ∧
      readMembers? (body.splitOn '\"') =
        some ((f :: fields).map fun g ↦ (g.1.toList, g.2.toList)) := by
  induction fields generalizing f with
  | nil =>
    obtain ⟨name, value⟩ := h f List.mem_cons_self
    refine ⟨f.1.toList ++ '\"' :: ([':'] ++ '\"' :: (f.2.toList ++ '\"' :: ['\x7d'])), ?_, ?_⟩
    · simp [writeFields, write, escaped_of_verbatim name, escaped_of_verbatim value]
    · rw [splitOn_member name value, List.splitOn_eq_singleton (by decide)]
      rfl
  | cons g fields ih =>
    obtain ⟨⟨name, value⟩, later⟩ := List.forall_mem_cons.mp h
    obtain ⟨body, text, read⟩ := ih later
    refine ⟨f.1.toList ++ '\"' :: ([':'] ++ '\"' :: (f.2.toList ++ '\"' :: ([','] ++ '\"' :: body))),
      ?_, ?_⟩
    · rw [List.map_cons] at text
      rw [← text]
      simp [writeFields, write, escaped_of_verbatim name, escaped_of_verbatim value]
    · rw [splitOn_member name value, List.splitOn_append_cons_self_of_not_mem (by decide)]
      simp only [readMembers?, read, Option.map_some, List.map_cons]

/-- An object of strings in which nothing is escaped is read back. -/
theorem readObject?_write {fields : List (String × String)}
    (h : ∀ f ∈ fields, Verbatim f.1.toList ∧ Verbatim f.2.toList) :
    readObject? (ofStrings fields).write =
      some (fields.map fun f ↦ (f.1.toList, f.2.toList)) := by
  cases fields with
  | nil => decide
  | cons f fields =>
    obtain ⟨body, text, read⟩ := readMembers?_writeFields h
    have parts : (ofStrings (f :: fields)).write.splitOn '\"' = ['\x7b'] :: body.splitOn '\"' := by
      have brace : '\"' ∉ ['\x7b'] := by decide
      rw [ofStrings, write, List.cons_append, text]
      exact List.splitOn_append_cons_self_of_not_mem brace body
    rw [readObject?, parts]
    exact read

end Json

/-- Digits are not escaped. -/
theorem Numeral.verbatim_digits (n : Nat) : Json.Verbatim (digits n) := by
  intro c hc
  have digit := isDigit_of_mem_digits hc
  have least : 0x30 ≤ c.toNat := (Char.isDigit_iff_toNat.mp digit).1
  refine ⟨?_, ?_, by omega⟩ <;> rintro rfl <;> contradiction

/-- A sign and digits are not escaped. -/
theorem Numeral.verbatim_ofInt (x : Int) : Json.Verbatim (ofInt x).toList := by
  rw [toList_ofInt]
  refine Json.verbatim_append.mpr ⟨?_, verbatim_digits _⟩
  split <;> decide

/-- The text of a fraction is not escaped. -/
theorem Value.verbatim_text (q : Value) : Json.Verbatim (Value.text q).toList := by
  unfold Value.text
  split
  · exact Numeral.verbatim_ofInt q.num
  · simp only [String.toList_append, Numeral.toList_ofNat]
    exact Json.verbatim_append.mpr ⟨Json.verbatim_append.mpr
      ⟨Numeral.verbatim_ofInt q.num, by decide⟩, Numeral.verbatim_digits q.den⟩

namespace Distribution

variable {K : Type} {name : K → String} {readName : List Char → Option K}

/-- Reads an outcome and its mass. -/
def readOutcome? (readName : List Char → Option K) (f : List Char × List Char) :
    Option (K × Probability) := do
  return (← readName f.1, ← Value.read? f.2)

/-- Reads the report on a distribution, given a reader of the names of its outcomes. -/
def read? (readName : List Char → Option K) (report : String) : Option (Distribution K) :=
  (Json.readObject? report.toList).bind fun fields ↦
    (fields.mapM (readOutcome? readName)).map Distribution.mk

/-- A report is read back if the names in it are. -/
theorem read?_render (verbatim : ∀ k, Json.Verbatim (name k).toList)
    (back : ∀ k, readName (name k).toList = some k) (d : Distribution K) :
    read? readName (d.json name).render = some d := by
  have object : d.json name =
      Json.ofStrings (d.outcomes.map fun e ↦ (name e.1, Value.text e.2)) := by
    rw [Json.ofStrings, List.map_map]
    rfl
  have fields : ∀ f ∈ d.outcomes.map (fun e ↦ (name e.1, Value.text e.2)),
      Json.Verbatim f.1.toList ∧ Json.Verbatim f.2.toList := by
    intro f hf
    obtain ⟨e, _, rfl⟩ := List.mem_map.mp hf
    exact ⟨verbatim e.1, Value.verbatim_text e.2⟩
  have outcomes (es : Table K Probability) :
      (es.map fun e ↦ ((name e.1).toList, (Value.text e.2).toList)).mapM (readOutcome? readName) =
        some es := by
    induction es with
    | nil => rfl
    | cons e es ih =>
      rw [List.map_cons, List.mapM_cons, ih, readOutcome?, back, Value.read?_text]
      rfl
  rw [read?, Json.render, String.toList_ofList, object, Json.readObject?_write fields,
    List.map_map]
  exact congrArg (Option.map Distribution.mk) (outcomes d.outcomes)

/-- Reports on distributions are lossless: each is read back to its distribution, with every outcome
and its exact mass in order, so the reports on two distributions are the same exactly if the
distributions are; and no two outcomes share a name. -/
theorem json_lossless :
    (∀ d : Distribution Value, read? Value.read? (d.json Value.text).render = some d) ∧
      (∀ d : Distribution Nat, read? Numeral.read? (d.json Numeral.ofNat).render = some d) ∧
      (∀ d d' : Distribution Value,
        (d.json Value.text).render = (d'.json Value.text).render ↔ d = d') ∧
      (∀ d d' : Distribution Nat,
        (d.json Numeral.ofNat).render = (d'.json Numeral.ofNat).render ↔ d = d') ∧
      (∀ v v', Value.text v = Value.text v' ↔ v = v') ∧
      ∀ n n', Numeral.ofNat n = Numeral.ofNat n' ↔ n = n' := by
  have injective {α β : Type} {f : α → β} {g : β → Option α} (back : ∀ a, g (f a) = some a)
      (a b : α) : f a = f b ↔ a = b := by
    refine ⟨fun same ↦ Option.some.inj ?_, congrArg f⟩
    rw [← back a, same, back b]
  have name (n : Nat) : Numeral.read? (Numeral.ofNat n).toList = some n := by
    rw [Numeral.toList_ofNat, Numeral.read?_digits]
  have counts (n : Nat) : Json.Verbatim (Numeral.ofNat n).toList := by
    rw [Numeral.toList_ofNat]
    exact Numeral.verbatim_digits n
  have values := read?_render Value.verbatim_text Value.read?_text
  have naturals := read?_render counts name
  exact ⟨values, naturals, injective values, injective naturals,
    injective (g := fun s ↦ Value.read? s.toList) Value.read?_text,
    injective (g := fun s ↦ Numeral.read? s.toList) name⟩

example : ((⟨[(-1 / 2, 1 / 3), (2, 2 / 3)]⟩ : Distribution Value).json Value.text).render =
    "\x7b\"-1/2\":\"1/3\",\"2\":\"2/3\"\x7d" := by decide +kernel

end Distribution

end DicePool
