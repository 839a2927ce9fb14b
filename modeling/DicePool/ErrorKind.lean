/-!
# Kinds of errors

The coarse classification shared by reading, rolling and analysing.
-/

namespace DicePool

/-- What went wrong, without the details. -/
inductive ErrorKind where
  | badExpression
  | unknownSides
  | impossibleFaces
  | tooManyFaces
  | tooManyDice
  | unsupportedModifier
  | nonNumericFaces
  | explosionDepthExceeded
  | tooManyRolls
  | tooManyOutcomes
  | noSamples
  deriving Repr, DecidableEq

namespace ErrorKind

/-- The name of a kind of errors. -/
def name : ErrorKind → String
  | badExpression => "BadExpression"
  | unknownSides => "UnknownSides"
  | impossibleFaces => "ImpossibleFaces"
  | tooManyFaces => "TooManyFaces"
  | tooManyDice => "TooManyDice"
  | unsupportedModifier => "UnsupportedModifier"
  | nonNumericFaces => "NonNumericFaces"
  | explosionDepthExceeded => "ExplosionDepthExceeded"
  | tooManyRolls => "TooManyRolls"
  | tooManyOutcomes => "TooManyOutcomes"
  | noSamples => "NoSamples"

end ErrorKind
end DicePool
