import GraphCompare.Decimal.Shortest

/-!
# Writing floating point numbers

A number is written with its shortest digits (`Decimal.shortest`), either with all its places or
with a power of ten. A `Layout` holds the decisions of one written form; `Layout.write` carries them
out. The digits never depend on the layout, apart from a number half-way between two shortest
decimals.
-/

namespace GraphCompare.Decimal

/-- The decisions of a written form of floating point numbers. -/
structure Layout where
  /-- The digits of a number half-way between two shortest decimals. -/
  half : HalfWay
  /-- Whether a number is written with all its places, from the power of ten of its first digit. -/
  positional : Int → Bool
  /-- What follows a whole number that is written with all its places. -/
  whole : String
  nan : String
  infinite : Bool → String

/-- The decimal digits of a natural number. -/
def digitText (n : Nat) : List Char := Nat.toDigits 10 n

/-- An integer in decimal digits, with a minus sign where it is negative. -/
def integerText (i : Int) : String :=
  (if i < 0 then "-" else "") ++ String.ofList (digitText i.natAbs)

/-- A natural number is written in its decimal digits and nothing else. -/
theorem integerText_natCast (n : Nat) : integerText n = Nat.repr n := by
  have nonneg : ¬((n : Int) < 0) := by omega
  rw [integerText, if_neg nonneg, digitText, Int.natAbs_natCast, Nat.repr_eq_ofList_toDigits]
  exact String.empty_append

/-- The decimal with all its places, and `whole` after it where it has no fraction. -/
def positionalText (whole : String) (d : Decimal) : String :=
  if 0 ≤ d.exponent then
    String.ofList (digitText d.digits ++ List.replicate d.exponent.toNat '0') ++ whole
  else
    let places := (-d.exponent).toNat
    let digits := digitText d.digits
    let padded := List.replicate (places + 1 - digits.length) '0' ++ digits
    let whole := padded.length - places
    String.ofList (padded.take whole ++ '.' :: padded.drop whole)

/-- The power of ten of the first digit. -/
def leadingPower (d : Decimal) : Int := d.exponent + ((digitText d.digits).length - 1 : Nat)

/-- One digit, the others after a point, and a power of ten that always shows its sign. -/
def scientificText (d : Decimal) : String :=
  let power := d.leadingPower
  let mantissa := match digitText d.digits with
    | first :: second :: others => first :: '.' :: second :: others
    | digits => digits
  let sign := if power < 0 then '-' else '+'
  String.ofList (mantissa ++ 'e' :: sign :: digitText power.natAbs)

/-- Writes a number. -/
def Layout.write (layout : Layout) (x : Binary64) : String :=
  match x.value with
  | .nan => layout.nan
  | .infinite negative => layout.infinite negative
  | .finite negative significand exponent =>
    let sign := if negative then "-" else ""
    if significand = 0 then sign ++ "0" ++ layout.whole
    else
      let d := shortest layout.half significand exponent
      sign ++ if layout.positional d.leadingPower then positionalText layout.whole d
        else scientificText d

/-- Numbers in labels have all their places, and whole numbers no point. -/
def plain : Layout where
  half := .up
  positional := fun _ => true
  whole := ""
  nan := "NaN"
  infinite := fun negative => if negative then "-inf" else "inf"

example : plain.write (.ofDecimal false 1 23) = "100000000000000000000000" := by decide +kernel
example : plain.write (.ofDecimal true 5 (-1)) = "-0.5" := by decide +kernel
example : plain.write (.ofDecimal true 0 0) = "-0" := by decide +kernel

end GraphCompare.Decimal
