/-!
# Runs of code points

A set of code points is written as its ascending boundaries: a start that belongs to it, then the
first code point that does not, and so on. Membership reads at most as far as the point itself.
-/

namespace DicePool.Text

/-- Whether `point` lies in one of the runs with the given ascending boundaries. -/
def inRuns : List Nat → Nat → Bool
  | start :: stop :: rest, point =>
    if point < start then false else point < stop || inRuns rest point
  | _, _ => false

end DicePool.Text
