import DicePool.Analysis
import DicePool.Double.Layout
import DicePool.Json
import DicePool.Roll.Score

/-!
# Reports

Scored rolls, distributions, statistics and analyses as JSON. Exact values are written as strings;
the mean and the deviation are rounded to doubles.
-/

namespace DicePool

/-- Doubles are written plainly from a hundred-thousandth up to sixteen digits before the point,
and a positive exponent has its sign. -/
def reportLayout : NumberLayout := ⟨-5, 15, "+"⟩

/-- A double as a JSON number; infinities and what is no number become null. -/
def Double.json (d : Double) : Json :=
  Json.ofOption Json.number (reportLayout.text? d)

/-- A value as a JSON string. -/
def Value.json (v : Value) : Json := Json.string (Value.text v)

namespace Statistics

/-- The mean, rounded (`mean_f64`). -/
def roundedMean (s : Statistics) : Double := Double.ofRat s.mean

/-- The standard deviation (`std`): the root of the rounded variance. -/
def deviation (s : Statistics) : Double := (Double.ofRat s.variance).sqrt

/-- The fields of a report on statistics (`serialize_entries`). -/
def fields (s : Statistics) : List (String × Json) :=
  [("mean", s.roundedMean.json), ("std", s.deviation.json), ("min", Value.json s.min),
    ("max", Value.json s.max), ("mode", Json.ofList Value.json s.mode),
    ("median", Value.json s.median),
    ("percentiles", .object (s.percentiles.map fun p ↦ (Numeral.ofNat p.1, Value.json p.2)))]

end Statistics

/-- The report on a distribution: the mass of each outcome under the text of the outcome. -/
def Distribution.json {K : Type} (name : K → String) (d : Distribution K) : Json :=
  .object (d.outcomes.map fun e ↦ (name e.1, Value.json e.2))

/-- A field that is left out when it has no value. -/
def optionalField {α : Type} (name : String) (f : α → Json) (a : Option α) :
    List (String × Json) :=
  a.toList.map fun a ↦ (name, f a)

namespace AnalysisMethod

/-- The number of samples of a method that takes samples. -/
def samples? : AnalysisMethod → Option Nat
  | exact => none
  | monteCarlo samples => some samples

end AnalysisMethod

/-- The report on an analysis. -/
def Analysis.json (a : Analysis) : Json :=
  .object <|
    [("distribution", a.distribution.json Value.text)] ++ a.statistics.fields
      ++ optionalField "success_distribution" (Distribution.json Numeral.ofNat) a.successes?
      ++ optionalField "pass_probability" Value.json a.pass?
      ++ [("method", .string a.method.name)]
      ++ optionalField "samples" Json.ofNat a.method.samples?

/-- A face as a JSON string. -/
def Face.json (f : Face) : Json := Json.string f.text

/-- A count as a JSON string. -/
def countJson (n : Nat) : Json := Json.string (Numeral.ofNat n)

/-- The report on a scored roll. -/
def Scored.json (s : Scored) : Json :=
  .object <|
    [("roll", .string s.roll), ("natural", Json.ofList Face.json s.natural),
        ("modified", Json.ofList Face.json s.modified), ("total", Value.json s.total)]
      ++ optionalField "success" countJson s.success?
      ++ optionalField "fail" countJson s.fail?
      ++ optionalField "ns" countJson s.naturalSuccess?
      ++ optionalField "nf" countJson s.naturalFail?
      ++ optionalField "pass" (fun b ↦ .string (if b then "1" else "0")) s.pass?

end DicePool
