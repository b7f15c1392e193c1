import MiniPascal.Binary64.Basic
import MiniPascal.Text.Cut
import MiniPascal.Text.Decimal

/-!
# Rounding to the nearest double

The nearest double to a quotient of natural numbers, ties going to the even neighbour, is found in
exact arithmetic: the quotient is scaled to units of the least positive number, a power of two is
chosen that leaves 53 bits, and the scaled quotient is rounded to a whole number. A significand and
the exponent that goes with it then add up to the magnitude, also where rounding carries into the
next exponent.
-/

namespace MiniPascal

/-- The whole number nearest to `numerator / denominator`; half way, the even one. -/
def roundQuotient (numerator denominator : Nat) : Nat :=
  let quotient := numerator / denominator
  let remainder := numerator % denominator
  if 2 * remainder < denominator then quotient
  else if denominator < 2 * remainder then quotient + 1
  else quotient + quotient % 2

namespace Binary64

/-- The magnitude nearest to `numerator / denominator`, infinity when that is too large. -/
def nearestMagnitude (numerator denominator : Nat) : Nat :=
  let scaled := numerator * Nat.pow 2 1074
  let scale := (scaled / denominator).log2 - 52
  min (scale * Nat.pow 2 52 + roundQuotient scaled (denominator * Nat.pow 2 scale))
    infinityMagnitude

/-- The double nearest to `numerator / denominator`. -/
def nearest (numerator denominator : Nat) : Binary64 :=
  ofMagnitude (nearestMagnitude numerator denominator)

/-- The double nearest to a decimal number with the given digits before and after its point. -/
def ofDecimal (whole fraction : List Char) : Binary64 :=
  nearest (Text.ofDigits (whole ++ fraction)) (Nat.pow 10 fraction.length)

/-- The double nearest to digits on both sides of a point; there is none for another text. -/
def ofPointed? (text : List Char) : Option Binary64 :=
  let whole := text.takeWhile Char.isDigit
  match text.dropWhile Char.isDigit with
  | '.' :: fraction =>
    if !whole.isEmpty && !fraction.isEmpty && fraction.all Char.isDigit then
      some (ofDecimal whole fraction)
    else none
  | _ => none

/-- Digits on both sides of a point have a nearest double. -/
theorem ofPointed?_append {whole fraction : List Char} (hwhole : whole ≠ [])
    (hfraction : fraction ≠ []) (hwholeDigit : ∀ c ∈ whole, c.isDigit = true)
    (hfractionDigit : ∀ c ∈ fraction, c.isDigit = true) :
    ofPointed? (whole ++ '.' :: fraction) = some (ofDecimal whole fraction) := by
  have hpoint : ∀ c ∈ ('.' :: fraction).head?, c.isDigit = false := by simp
  unfold ofPointed?
  rw [Text.takeWhile_append_of_head? hwholeDigit hpoint,
    Text.dropWhile_append_of_head? hwholeDigit hpoint]
  refine if_pos ?_
  rw [List.isEmpty_eq_false_iff.2 hwhole, List.isEmpty_eq_false_iff.2 hfraction,
    List.all_eq_true.2 hfractionDigit]
  rfl

end Binary64

end MiniPascal
