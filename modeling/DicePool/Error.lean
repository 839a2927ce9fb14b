import DicePool.Expression.Error
import DicePool.Face
import DicePool.Modifier

/-!
# Errors

Everything that can go wrong between the text of an expression and its roll or its analysis, as a
cause with the numbers that its message needs.
-/

namespace DicePool

/-- Why an expression was not read, rolled or analysed. -/
inductive Error where
  | parse (e : ParseError)
  | explosionDepthExceeded (limit : Nat)
  | tooManyRolls (limit : Nat)
  | unsupportedModifier (kind : ModifierKind)
  | nonNumericFaces (kind : FaceKind)
  | tooManyOutcomes (pools limit : Nat)
  | noSamples
  deriving Repr, DecidableEq

namespace Error

/-- The kind of an error. -/
def kind : Error → ErrorKind
  | parse e => e.kind
  | explosionDepthExceeded _ => .explosionDepthExceeded
  | tooManyRolls _ => .tooManyRolls
  | unsupportedModifier _ => .unsupportedModifier
  | nonNumericFaces _ => .nonNumericFaces
  | tooManyOutcomes _ _ => .tooManyOutcomes
  | noSamples => .noSamples

/-- The error as a sentence. -/
def message : Error → String
  | parse e => e.message
  | explosionDepthExceeded limit =>
    "explosions chained more than " ++ Numeral.ofNat limit ++ " times"
  | tooManyRolls limit => "too many dice rolled (limit " ++ Numeral.ofNat limit ++ ")"
  | unsupportedModifier k =>
    "exact probabilities are not available with the " ++ k.text ++ " modifier"
  | nonNumericFaces k => "probabilities need numeric faces, found " ++ k.name ++ " faces"
  | tooManyOutcomes pools limit =>
    "keep/drop analysis would enumerate " ++ Numeral.ofNat pools ++ " pools (limit "
      ++ Numeral.ofNat limit ++ ")"
  | noSamples => "at least one sample is required"

end Error
end DicePool
