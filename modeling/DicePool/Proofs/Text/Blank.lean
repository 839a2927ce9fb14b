import DicePool.Text.Alphanumeric
import DicePool.Text.Blank
import Mathlib.Data.List.TakeWhile

/-!
# Trimming

A text without blank characters stays as it is, and only a blank text is trimmed to nothing.
-/

namespace DicePool.Text

variable {cs : List Char}

/-- Nothing is trimmed from a text without blank characters. -/
theorem trim_of_forall (h : ∀ c ∈ cs, isBlank c = false) : trim cs = cs := by
  have start {ds : List Char} (hd : ∀ c ∈ ds, isBlank c = false) : trimStart ds = ds := by
    cases ds with
    | nil => rfl
    | cons c ds => simp [trimStart, hd c List.mem_cons_self]
  rw [trim, trimEnd, start h, start fun c hc ↦ h c (List.mem_reverse.mp hc), List.reverse_reverse]

/-- A text with a character that is not blank is not trimmed to nothing. -/
theorem trim_ne_nil {c : Char} (hc : c ∈ cs) (h : isBlank c = false) : trim cs ≠ [] := by
  have start {ds : List Char} (hd : c ∈ ds) : c ∈ trimStart ds := by
    have all : c ∈ ds.takeWhile isBlank ++ ds.dropWhile isBlank := by
      rwa [List.takeWhile_append_dropWhile]
    refine (List.mem_append.mp all).resolve_left fun blank ↦ ?_
    rw [List.mem_takeWhile_imp blank] at h
    contradiction
  have kept : c ∈ trim cs := by
    unfold trim trimEnd
    exact List.mem_reverse.mpr (start (List.mem_reverse.mpr (start hc)))
  exact List.ne_nil_of_mem kept

private theorem not_alphanumeric_of_blank :
    ∀ n ∈ blankPoints, isAlphanumeric (Char.ofNat n) = false := by
  decide +kernel

/-- Letters and numerals are not blank. -/
theorem isBlank_of_isAlphanumeric {c : Char} (h : isAlphanumeric c = true) : isBlank c = false := by
  by_contra blank
  have other := not_alphanumeric_of_blank _ (mem_blankPoints_of_isBlank (by simpa using blank))
  rw [Char.ofNat_toNat, h] at other
  contradiction

end DicePool.Text
