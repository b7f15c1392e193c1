/-!
# Decimal digits

Natural numbers are written with the fewest decimal digits, most significant first, and digits are
read back as the number they denote. Main statement: writing and then reading gives the number
back (`ofDigits_digits`).
-/

namespace MiniPascal.Text

/-- The decimal digits of a number, without leading zeros; zero is `0`. -/
def digits (n : Nat) : List Char :=
  Nat.toDigits 10 n

/-- The number that a row of decimal digits denotes; no digits denote zero. -/
def ofDigits (text : List Char) : Nat :=
  Nat.ofDigitChars 10 text 0

/-- The digits of a number denote it. -/
@[simp] theorem ofDigits_digits (n : Nat) : ofDigits (digits n) = n :=
  Nat.ofDigitChars_toDigits (by decide) (by decide)

/-- Every character of a written number is a decimal digit. -/
theorem isDigit_of_mem_digits {n : Nat} {c : Char} (h : c ∈ digits n) : c.isDigit = true :=
  Nat.isDigit_of_mem_toDigits (by decide) (by decide) h

/-- The digits of a number, filled up with zeros on the left to at least `width` of them. -/
def paddedDigits (width n : Nat) : List Char :=
  List.replicate (width - (digits n).length) '0' ++ digits n

/-- Digits without the zeros at their end. -/
def dropTrailingZeros : List Char → List Char
  | [] => []
  | c :: rest =>
    match dropTrailingZeros rest with
    | [] => if c = '0' then [] else [c]
    | kept => c :: kept

/-- The decimal text of a whole number, with a dash before a negative one. -/
def integerText (n : Int) : String :=
  String.ofList (if n < 0 then '-' :: digits n.natAbs else digits n.natAbs)

/-- The decimal text of a natural number. -/
def naturalText (n : Nat) : String :=
  String.ofList (digits n)

end MiniPascal.Text
