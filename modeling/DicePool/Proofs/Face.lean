import DicePool.Face
import DicePool.Proofs.Value

/-!
# The numbers on a die

A die whose faces are all numbers lists them in the order of the answers that bring them up.
-/

namespace DicePool.FaceSet

/-- The number that an answer brings up; a label counts as zero. -/
def value (faces : FaceSet) (answer : Nat) : Value := (faces.face answer).number?.getD 0

/-- An ordinary die. -/
def cube : FaceSet := .range 6 (by decide)

/-- A die that shows the least integer of 64 bits alone. -/
def least : FaceSet := .list [.number (-9223372036854775808)] (by decide +kernel)

/-- A die that shows the least integer of 64 bits or five. -/
def leastOrFive : FaceSet :=
  .list [.number (-9223372036854775808), .number 5] (by decide +kernel)

private theorem mapM_number? (faces : List Face) :
    faces.mapM Face.number? =
      if faces.all fun f ↦ f.number?.isSome then some (faces.map fun f ↦ f.number?.getD 0)
      else none := by
  induction faces with
  | nil => rfl
  | cons f faces ih =>
    rw [List.mapM_cons, ih]
    cases hf : f.number? with
    | none => simp [hf]
    | some v =>
      simp only [List.all_cons, hf, Option.isSome_some, Bool.true_and, List.map_cons,
        Option.getD_some]
      split <;> rfl

private theorem isNumeric_list (faces : List Face) (h : faces ≠ [] ∧ ∀ f ∈ faces, f.Narrow) :
    (list faces h).isNumeric = faces.all fun f ↦ f.number?.isSome := by
  have count : faces.countP (fun f ↦ f.number?.isSome) = faces.length ↔
      (faces.all fun f ↦ f.number?.isSome) = true := by
    rw [List.countP_eq_length, List.all_eq_true]
  unfold isNumeric kind
  apply Bool.eq_iff_iff.mpr
  rw [← count]
  by_cases hall : faces.countP (fun f ↦ f.number?.isSome) = faces.length
  · simp [hall]
  · by_cases hnone : faces.countP (fun f ↦ f.number?.isSome) = 0 <;> simp [hall, hnone]

/-- The numbers are known exactly when all faces are numbers. -/
theorem isSome_numbers? (faces : FaceSet) : faces.numbers?.isSome = faces.isNumeric := by
  cases faces with
  | range sides pos => rfl
  | list faces h =>
    rw [isNumeric_list, numbers?, mapM_number?]
    split <;> simp_all

/-- A die whose numbers are known shows numbers only. -/
theorem isNumeric_of_numbers? {faces : FaceSet} {numbers : List Value}
    (h : faces.numbers? = some numbers) : faces.isNumeric = true := by
  rw [← isSome_numbers?, h, Option.isSome_some]

/-- The numbers stand in the order of the answers from one to the number of faces. -/
theorem numbers?_of_isNumeric {faces : FaceSet} (hn : faces.isNumeric = true) :
    faces.numbers? = some ((List.range faces.size).map fun i ↦ faces.value (i + 1)) := by
  cases faces with
  | range sides valid =>
    apply congrArg some
    apply List.map_congr_left
    intro i hi
    have within : i + 1 ≤ sides := List.mem_range.mp hi
    show ((i + 1 : Nat) : Value) = (shown (i + 1) : Nat)
    rw [shown_of_lt (Nat.lt_of_le_of_lt within valid.2)]
  | list faces h =>
    rw [isNumeric_list] at hn
    rw [numbers?, mapM_number?, if_pos hn]
    congr 1
    apply List.ext_getElem
    · simp [size]
    · intro i hi hj
      have hlt : i < faces.length := by simpa using hi
      have hmin : min i (faces.length - 1) = i := by omega
      simp [value, face, hmin]

/-- Numbers that are brought up are narrow. -/
theorem narrow_value (faces : FaceSet) (answer : Nat) : Value.Narrow (faces.value answer) := by
  cases faces with
  | range sides valid =>
    have few : shown answer ≤ 4294967295 := Nat.min_le_right _ _
    show Value.wrap ((shown answer : Nat) : Value).num = ((shown answer : Nat) : Value).num
    rw [Rat.num_natCast]
    apply Value.wrap_of_bounds <;> omega
  | list faces valid =>
    have narrow : ((list faces valid).face answer).Narrow := valid.2 _ (List.get_mem faces _)
    unfold value
    cases hf : (list faces valid).face answer with
    | number v =>
      rw [hf] at narrow
      exact narrow
    | label s => exact Value.narrow_zero

/-- The numbers of a die are narrow. -/
theorem narrow_of_numbers? {faces : FaceSet} {numbers : List Value}
    (h : faces.numbers? = some numbers) : ∀ v ∈ numbers, v.Narrow := by
  rw [numbers?_of_isNumeric (isNumeric_of_numbers? h), Option.some.injEq] at h
  rw [← h, List.forall_mem_map]
  exact fun i _ ↦ faces.narrow_value (i + 1)

/-- A die has as many numbers as faces. -/
theorem length_of_numbers? {faces : FaceSet} {numbers : List Value}
    (h : faces.numbers? = some numbers) : numbers.length = faces.size := by
  rw [numbers?_of_isNumeric (isNumeric_of_numbers? h), Option.some.injEq] at h
  rw [← h, List.length_map, List.length_range]

/-- There is at least one number. -/
theorem length_pos_of_numbers? {faces : FaceSet} {numbers : List Value}
    (h : faces.numbers? = some numbers) : 0 < numbers.length := by
  rw [length_of_numbers? h]
  exact faces.size_pos

end DicePool.FaceSet
