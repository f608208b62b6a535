import GraphCompare.Decimal.Layout

/-!
# JSON documents

The tree of a JSON document. Members of an object are kept in the order of the text, repeated names
included, since what a repeated name means depends on what is read from the object.

A text may be well formed and still hold a piece that stands for no value: a number beyond the range
of floating point, a string with half of a surrogate pair, an object with such a string for a name.
Such a piece is `Json.unusable`. It is an error where its value is wanted, and may be passed over
where it is not.
-/

namespace GraphCompare

/-- A JSON document. -/
inductive Json where
  | null
  | bool (b : Bool)
  | int (i : Int)
  | float (x : Binary64)
  | string (s : String)
  | array (items : List Json)
  | object (members : List (String × Json))
  | unusable
deriving Inhabited

namespace Json

/-- Floating point numbers in JSON keep a decimal place where all places are written, and are
written with a power of ten below a hundred-thousandth and from 10 ^ 16 on. What is not a finite
number is `null`. -/
def floatLayout : Decimal.Layout where
  half := .toEven
  positional := fun power => -5 ≤ power ∧ power < 16
  whole := ".0"
  nan := "null"
  infinite := fun _ => "null"

example : floatLayout.write (.ofDecimal false 1 16) = "1e+16" := by decide +kernel
example : floatLayout.write (.ofDecimal false 1 15) = "1000000000000000.0" := by decide +kernel
example : floatLayout.write (.ofDecimal true 125 (-8)) = "-1.25e-6" := by decide +kernel
example : floatLayout.write (.ofDecimal false 1 (-5)) = "0.00001" := by decide +kernel

end Json

end GraphCompare
