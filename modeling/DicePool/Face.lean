import DicePool.Value
import DicePool.Text.Alphanumeric
import DicePool.Text.Blank

/-!
# Faces and dice

A die shows the numbers `1` to its number of sides, or the faces of an explicit list. A listed
face is a number or a label. A source of randomness answers a position, counted from one; the die
turns it into a face.
-/

namespace DicePool

/-- One face of a die. -/
inductive Face where
  | number (value : Value)
  | label (name : String)
  deriving Repr, DecidableEq

namespace Face

/-- The number on a face, if it shows one. -/
def number? : Face → Option Value
  | number v => some v
  | label _ => none

/-- A number in lowest terms, or the label as it is. -/
def text : Face → String
  | number v => Value.text v
  | label s => s

/-- Whether a face can be shown: its number, if it shows one, is narrow. -/
def Narrow : Face → Prop
  | number v => v.Narrow
  | label _ => True

instance : DecidablePred Narrow
  | number v => inferInstanceAs (Decidable (Value.Narrow v))
  | label _ => inferInstanceAs (Decidable True)

/-- Whether an integer can be listed: it has 64 bits, and its magnitude is bounded. The magnitude
has 64 bits too, so that the magnitude of the least integer wraps around to that integer. -/
def Listable (n : Int) : Prop := Value.wrap n = n ∧ Value.wrap n.natAbs ≤ maxLiteral

instance : DecidablePred Listable := fun _ ↦ inferInstanceAs (Decidable (_ ∧ _))

/-- Reads a listed face (`parse_atom`): an integer that can be listed, or an alphanumeric label.
Digits alone are never a label. -/
def ofAtom? (atom : List Char) : Option Face :=
  let atom := Text.trim atom
  let negative := atom.head? = some '-'
  let digits := if negative then atom.drop 1 else atom
  if digits ≠ [] ∧ digits.all Char.isDigit then
    let n : Int := if negative then -(Numeral.value digits : Int) else Numeral.value digits
    if Listable n then some (number n) else none
  else if atom ≠ [] ∧ atom.all Text.isAlphanumeric then some (label (String.ofList atom))
  else none

/-- The integers of bounded magnitude can be listed, and so can the least integer of 64 bits. -/
theorem listable_iff {n : Int} :
    Listable n ↔ n.natAbs ≤ maxLiteral ∨ n = -9223372036854775808 := by
  unfold Listable Value.wrap maxLiteral
  constructor
  · rintro ⟨fits, bounded⟩
    rw [Int.bmod_def] at fits bounded
    omega
  · rintro (small | rfl)
    · rw [Int.bmod_def, Int.bmod_def]
      omega
    · decide

/-- An integer of bounded magnitude can be listed. -/
theorem listable_of_le {n : Int} (h : n.natAbs ≤ maxLiteral) : Listable n :=
  listable_iff.mpr (.inl h)

/-- What can be listed is bounded from above. -/
theorem Listable.toNat_le {n : Int} (h : Listable n) : n.toNat ≤ maxLiteral := by
  rcases listable_iff.mp h with small | rfl
  · omega
  · exact Nat.zero_le maxLiteral

end Face

/-- What a set of faces shows. -/
inductive FaceKind where
  | integer
  | text
  | mixed
  deriving Repr, DecidableEq

namespace FaceKind

/-- The word for a kind of faces. -/
def name : FaceKind → String
  | integer => "integer"
  | text => "text"
  | mixed => "mixed"

end FaceKind

/-- The faces of a die: a range of numbers from one, at most as many as 32 bits can count, or a
non-empty list in its own order. -/
inductive FaceSet where
  | range (sides : Nat) (valid : 0 < sides ∧ sides < 4294967296)
  | list (faces : List Face) (valid : faces ≠ [] ∧ ∀ f ∈ faces, f.Narrow)
  deriving Repr, DecidableEq

namespace FaceSet

/-- A range of at least one side, at most as many as 32 bits can count. -/
def ofSides? (sides : Nat) : Option FaceSet :=
  if h : 0 < sides ∧ sides < 4294967296 then some (range sides h) else none

/-- A list of at least one face, if all of them can be shown. -/
def ofFaces? (faces : List Face) : Option FaceSet :=
  if h : faces ≠ [] ∧ ∀ f ∈ faces, f.Narrow then some (list faces h) else none

/-- The parts of a text between commas. -/
def atoms : List Char → List (List Char)
  | [] => [[]]
  | c :: cs =>
    if c = ',' then [] :: atoms cs
    else
      match atoms cs with
      | [] => [[c]]
      | atom :: rest => (c :: atom) :: rest

/-- The text between the braces of a list, if it has both. -/
def body? : List Char → Option (List Char)
  | '\x7b' :: cs => if cs.getLast? = some '\x7d' then some cs.dropLast else none
  | _ => none

/-- Reads a list of faces in braces, separated by commas (`parse_list`). -/
def ofText? (cs : List Char) : Option FaceSet := do
  let body ← body? cs
  if Text.trim body = [] then none
  ofFaces? (← (atoms body).mapM Face.ofAtom?)

/-- The number of faces, repeated ones included. -/
def size : FaceSet → Nat
  | range sides _ => sides
  | list faces _ => faces.length

/-- Whether all faces are numbers, none is, or some are. -/
def kind : FaceSet → FaceKind
  | range _ _ => .integer
  | list faces _ =>
    let numbers := faces.countP fun f ↦ f.number?.isSome
    if numbers = faces.length then .integer else if numbers = 0 then .text else .mixed

/-- Whether every face is a number. -/
def isNumeric (faces : FaceSet) : Bool := faces.kind = .integer

/-- The numbers on the faces in order, if every face shows one. -/
def numbers? : FaceSet → Option (List Value)
  | range sides _ => some ((List.range sides).map fun i ↦ ((i + 1 : Nat) : Value))
  | list faces _ => faces.mapM Face.number?

/-- The largest number, if every face shows one. -/
def max? : FaceSet → Option Int
  | range sides _ => some sides
  | list faces h => do
    let values ← (list faces h).numbers?
    let first ← values.head?
    return Value.truncate (values.foldl (fun a b ↦ if a < b then b else a) first)

/-- The number of sides, or the faces in braces. -/
def text : FaceSet → String
  | range sides _ => Numeral.ofNat sides
  | list faces _ => "\x7b" ++ String.intercalate "," (faces.map Face.text) ++ "\x7d"

/-- The number that a range shows for an answer: the answer itself, which has 32 bits. -/
def shown (answer : Nat) : Nat := min answer 4294967295

/-- The face at an answer counted from one (`roll`). A range shows the answer itself; a list shows
its last face for an answer beyond its end. -/
def face : FaceSet → Nat → Face
  | range _ _, answer => .number (shown answer : Value)
  | list faces h, answer =>
    faces.get ⟨min (answer - 1) (faces.length - 1),
      Nat.lt_of_le_of_lt (Nat.min_le_right _ _)
        (Nat.sub_lt (List.length_pos_iff.mpr h.1) Nat.one_pos)⟩

/-- A set of faces is never empty. -/
theorem size_pos (faces : FaceSet) : 0 < faces.size := by
  cases faces with
  | range sides valid => exact valid.1
  | list faces valid => exact List.length_pos_iff.mpr valid.1

/-- An answer of 32 bits is shown as it is. -/
theorem shown_of_lt {answer : Nat} (h : answer < 4294967296) : shown answer = answer := by
  unfold shown
  omega

/-- A range shows numbers only. -/
theorem isNumeric_range (sides : Nat) (valid : 0 < sides ∧ sides < 4294967296) :
    (range sides valid).isNumeric = true := rfl

end FaceSet
end DicePool
