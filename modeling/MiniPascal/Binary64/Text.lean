import MiniPascal.Binary64.Shortest

/-!
# Decimal text of a double

A finite double is written with the digits of its shortest decimal. Zero and the numbers from
`0.0001` up to below `10 ^ 16` are written positionally, with at least one digit after the point;
all others have one digit before the point and a power of ten after an `e`.
-/

namespace MiniPascal

namespace Decimal

/-- The digits before the point. -/
def whole (d : Decimal) : List Char :=
  Text.digits (d.coefficient / Nat.pow 10 d.places)

/-- The digits after the point, without zeros at the end but at least one. -/
def fraction (d : Decimal) : List Char :=
  let digits := Text.paddedDigits d.places (d.coefficient % Nat.pow 10 d.places)
  match Text.dropTrailingZeros digits with
  | [] => ['0']
  | kept => kept

/-- The positional form, such as `100.0` or `0.0001`. -/
def positional (d : Decimal) : List Char :=
  d.whole ++ '.' :: d.fraction

/-- The power of ten of the leading digit. -/
def leadingExponent (d : Decimal) : Int :=
  (Text.digits d.coefficient).length - 1 - d.places

/-- The form with a power of ten, such as `1e16` or `1.5e-7`. -/
def scientific (d : Decimal) : List Char :=
  let mantissa :=
    match Text.dropTrailingZeros (Text.digits d.coefficient) with
    | [] => ['0']
    | [leading] => [leading]
    | leading :: others => leading :: '.' :: others
  mantissa ++ 'e' :: (Text.integerText d.leadingExponent).toList

end Decimal

namespace Binary64

/-- The least positive magnitude in positional form, that of `0.0001`. -/
def leastPositional : Nat :=
  nearestMagnitude 1 (Nat.pow 10 4)

/-- The first magnitude past the positional form, that of `10 ^ 16`. -/
def positionalBound : Nat :=
  nearestMagnitude (Nat.pow 10 16) 1

/-- Whether a magnitude is written positionally. -/
def isPositional (magnitude : Nat) : Bool :=
  magnitude == 0 || (leastPositional ≤ magnitude && magnitude < positionalBound)

/-- The text of a magnitude that is not a NaN. -/
def magnitudeText (magnitude : Nat) : List Char :=
  if infinityMagnitude ≤ magnitude then ['i', 'n', 'f']
  else if isPositional magnitude then (shortest magnitude).positional
  else (shortest magnitude).scientific

/-- The decimal text of a double. -/
def text (x : Binary64) : String :=
  if x.isNaN then "NaN"
  else if x.isNegative then String.ofList ('-' :: magnitudeText x.magnitude)
  else String.ofList (magnitudeText x.magnitude)

end Binary64

end MiniPascal
