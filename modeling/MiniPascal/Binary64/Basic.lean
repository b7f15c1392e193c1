/-!
# Double precision numbers

A number of the IEEE 754 format `binary64` is its pattern of 64 bits: a sign, eleven bits of
exponent and 52 bits of fraction. The bits below the sign, read as one natural number, are the
magnitude of the number; they order the finite numbers by absolute value.

Patterns are compared in two ways. Equality in the logic is equality of patterns. `Binary64.equals`
is the numeric comparison, where the two zeros agree and a NaN differs from itself.
-/

namespace MiniPascal

/-- A double precision number, given by its bit pattern. -/
structure Binary64 where
  bits : UInt64
  deriving DecidableEq

namespace Binary64

/-! ## Fields of the pattern -/

/-- The bits below the sign, as one number. -/
def magnitude (x : Binary64) : Nat :=
  x.bits.toNat % Nat.pow 2 63

/-- Whether the sign bit is set. -/
def isNegative (x : Binary64) : Bool :=
  Nat.pow 2 63 ≤ x.bits.toNat

/-- The nonnegative number with a given magnitude. -/
def ofMagnitude (magnitude : Nat) : Binary64 :=
  ⟨UInt64.ofNat magnitude⟩

/-- The magnitude of infinity: all exponent bits set and no fraction. -/
def infinityMagnitude : Nat :=
  2047 * Nat.pow 2 52

/-- Whether a pattern is not a number: all exponent bits set and some fraction. -/
def isNaN (x : Binary64) : Bool :=
  infinityMagnitude < x.magnitude

/-! ## Finite values -/

/-- The significand of a finite magnitude. Together with `scale` it gives the value, in units of
the least positive number `2 ^ (-1074)`. -/
def significand (magnitude : Nat) : Nat :=
  if magnitude < Nat.pow 2 52 then magnitude else Nat.pow 2 52 + magnitude % Nat.pow 2 52

/-- The power of two that multiplies the significand of a finite magnitude, counted from the least
positive number. -/
def scale (magnitude : Nat) : Nat :=
  magnitude / Nat.pow 2 52 - 1

/-- The value of a finite magnitude in units of `2 ^ (-1074)`. -/
def units (magnitude : Nat) : Nat :=
  significand magnitude * Nat.pow 2 (scale magnitude)

/-! ## Numeric comparison -/

/-- Whether two numbers are equal as numbers. -/
def equals (x y : Binary64) : Bool :=
  !x.isNaN && !y.isNaN && (x == y || (x.magnitude == 0 && y.magnitude == 0))

end Binary64

end MiniPascal
