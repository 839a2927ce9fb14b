/-!
# Limits

Bounds on the work of one evaluation and of one analysis.
-/

namespace DicePool

/-- How often a die may chain explosions, how many draws one evaluation may make, and how many pools
an exact analysis may enumerate. -/
structure Limits where
  explosionDepth : Nat := 100
  rolls : Nat := 10000
  outcomes : Nat := 1000000
  deriving Repr, DecidableEq

end DicePool
