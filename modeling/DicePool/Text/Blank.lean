import DicePool.Text.Runs

/-!
# Blank characters

The characters with the White_Space property, and trimming them from both ends of a text.
-/

namespace DicePool.Text

private def blankRuns : List Nat :=
  [0x9, 0xe, 0x20, 0x21, 0x85, 0x86, 0xa0, 0xa1, 0x1680, 0x1681, 0x2000, 0x200b, 0x2028, 0x202a,
    0x202f, 0x2030, 0x205f, 0x2060, 0x3000, 0x3001]

/-- Whether a character has the White_Space property. -/
def isBlank (c : Char) : Bool := inRuns blankRuns c.toNat

/-- The text without the blank characters at its start. -/
def trimStart (cs : List Char) : List Char := cs.dropWhile isBlank

/-- The text without the blank characters at its end. -/
def trimEnd (cs : List Char) : List Char := (trimStart cs.reverse).reverse

/-- The text without the blank characters at either end. -/
def trim (cs : List Char) : List Char := trimEnd (trimStart cs)

/-- The code points of the blank characters one by one. -/
def blankPoints : List Nat :=
  [0x9, 0xa, 0xb, 0xc, 0xd, 0x20, 0x85, 0xa0, 0x1680, 0x2000, 0x2001, 0x2002, 0x2003, 0x2004,
    0x2005, 0x2006, 0x2007, 0x2008, 0x2009, 0x200a, 0x2028, 0x2029, 0x202f, 0x205f, 0x3000]

/-- The runs hold no other code points. -/
theorem mem_blankPoints_of_isBlank {c : Char} (h : isBlank c = true) : c.toNat ∈ blankPoints := by
  simp only [isBlank, blankRuns, inRuns, Bool.or_eq_true, decide_eq_true_eq, Bool.or_false,
    Bool.if_false_left, Bool.and_eq_true, Bool.not_eq_true', decide_eq_false_iff_not] at h
  simp only [blankPoints, List.mem_cons, List.not_mem_nil, or_false]
  omega

end DicePool.Text
