import MiniPascal.Text.Decimal
import Mathlib.Data.List.Basic

/-!
# Digits read back

What a written number tells. Zeros may be dropped at the end of its digits or filled up in front of
them, which scales the number or leaves it as it is (`exists_ofDigits_significantDigits`,
`ofDigits_paddedDigits`), and different whole numbers have different texts
(`integerText_injective`). Texts that are joined by a character are told apart where they do not
hold it themselves (`eq_of_append_cons_eq`).
-/

namespace MiniPascal.Text

/-! ## Joined texts -/

/-- Two texts that are equal and hold a character are equal before its first place and behind it. -/
theorem eq_of_append_cons_eq {c : Char} {front front' back back' : List Char} (h : c ∉ front)
    (h' : c ∉ front') (heq : front ++ c :: back = front' ++ c :: back') :
    front = front' ∧ back = back' := by
  rcases List.append_eq_append_iff.1 heq with ⟨between, rfl, hback⟩ | ⟨between, rfl, hback⟩
  -- where one beginning is longer, the character stands in it
  all_goals
    cases between with
    | nil =>
      rw [List.nil_append, List.cons.injEq] at hback
      simp [hback.2]
    | cons d between =>
      rw [List.cons_append, List.cons.injEq] at hback
      simp [← hback.1] at h h'

/-! ## Characters of digits -/

/-- A character that is no digit is not among the digits of a number. -/
theorem notMem_digits {c : Char} (hc : c.isDigit = false) (n : Nat) : c ∉ digits n := by
  intro hmem
  rw [isDigit_of_mem_digits hmem] at hc
  cases hc

/-- Nor is it among the digits when they are filled up. -/
theorem notMem_paddedDigits {c : Char} (hc : c.isDigit = false) (width n : Nat) :
    c ∉ paddedDigits width n := by
  intro hmem
  rcases List.mem_append.1 hmem with hmem | hmem
  · rw [List.eq_of_mem_replicate hmem] at hc
    cases hc
  · exact notMem_digits hc n hmem

/-! ## Numbers that digits denote -/

/-- Exponents of ten add up, for powers in the form in which decimals hold them. -/
theorem ten_pow_add (m n : Nat) : Nat.pow 10 (m + n) = Nat.pow 10 m * Nat.pow 10 n :=
  Nat.pow_add 10 m n

/-- Digits behind others scale the number that these denote. -/
theorem ofDigits_append (front back : List Char) :
    ofDigits (front ++ back) = ofDigits front * Nat.pow 10 back.length + ofDigits back := by
  unfold ofDigits
  rw [Nat.ofDigitChars_append, Nat.ofDigitChars_eq_ofDigitChars_zero, Nat.mul_comm]
  rfl

/-- Zeros denote zero. -/
theorem ofDigits_replicate_zero (count : Nat) : ofDigits (List.replicate count '0') = 0 :=
  Nat.ofDigitChars_replicate_zero

/-- Numbers with the same digits are equal. -/
theorem digits_injective : Function.Injective digits :=
  Function.LeftInverse.injective ofDigits_digits

/-- Every number is written with some digit. -/
theorem digits_ne_nil (n : Nat) : digits n ≠ [] :=
  Nat.toDigits_ne_nil

/-- Zeros in front do not change the number. -/
theorem ofDigits_paddedDigits (width n : Nat) : ofDigits (paddedDigits width n) = n := by
  rw [paddedDigits, ofDigits_append, ofDigits_replicate_zero, Nat.zero_mul, Nat.zero_add,
    ofDigits_digits]

/-- A number that has room is filled up to exactly the width. -/
theorem length_paddedDigits {width n : Nat} (hpos : 0 < width) (h : n < Nat.pow 10 width) :
    (paddedDigits width n).length = width := by
  have hle : (digits n).length ≤ width := (Nat.length_toDigits_le_iff (by decide) hpos).2 h
  rw [paddedDigits, List.length_append, List.length_replicate]
  omega

/-! ## Zeros at the end -/

/-- What is dropped at the end of digits are zeros. -/
theorem exists_dropTrailingZeros_append (text : List Char) :
    ∃ count, dropTrailingZeros text ++ List.replicate count '0' = text := by
  fun_induction dropTrailingZeros text with
  | case1 => exact ⟨0, rfl⟩
  | case2 rest hrest ih =>
    obtain ⟨count, hcount⟩ := ih
    rw [hrest, List.nil_append] at hcount
    exact ⟨count + 1, by rw [List.nil_append, List.replicate_succ, hcount]⟩
  | case3 c rest hrest _ ih =>
    obtain ⟨count, hcount⟩ := ih
    rw [hrest, List.nil_append] at hcount
    exact ⟨count, by rw [List.singleton_append, hcount]⟩
  | case4 c rest _ ih =>
    obtain ⟨count, hcount⟩ := ih
    exact ⟨count, by rw [List.cons_append, hcount]⟩

/-- Digits without the zeros at their end, of which one is left when there are no other digits. -/
def significantDigits (text : List Char) : List Char :=
  match dropTrailingZeros text with
  | [] => ['0']
  | kept => kept

/-- What is missing at the end of the significant digits are zeros. -/
theorem exists_significantDigits_append {text : List Char} (hne : text ≠ []) :
    ∃ count, significantDigits text ++ List.replicate count '0' = text := by
  obtain ⟨count, hcount⟩ := exists_dropTrailingZeros_append text
  unfold significantDigits
  split
  · next hnone =>
    -- of zeros alone, one is left
    rw [hnone, List.nil_append] at hcount
    cases count with
    | zero => exact absurd hcount.symm hne
    | succ count => exact ⟨count, by rw [← hcount, List.replicate_succ, List.singleton_append]⟩
  · exact ⟨count, hcount⟩

/-- What is left of digits is some of them, or a zero. -/
theorem mem_of_mem_significantDigits {text : List Char} {c : Char}
    (h : c ∈ significantDigits text) : c = '0' ∨ c ∈ text := by
  unfold significantDigits at h
  split at h
  · exact Or.inl (List.mem_singleton.1 h)
  · obtain ⟨count, hcount⟩ := exists_dropTrailingZeros_append text
    rw [← hcount]
    exact Or.inr (List.mem_append_left _ h)

/-- What is left of digits has to be scaled by one ten for each digit that is missing. -/
theorem exists_ofDigits_significantDigits {text : List Char} (hne : text ≠ []) :
    ∃ count, (significantDigits text).length + count = text.length ∧
      ofDigits (significantDigits text) * Nat.pow 10 count = ofDigits text := by
  obtain ⟨count, hcount⟩ := exists_significantDigits_append hne
  refine ⟨count, ?_, ?_⟩
  · conv_rhs => rw [← hcount, List.length_append, List.length_replicate]
  · conv_rhs => rw [← hcount, ofDigits_append, ofDigits_replicate_zero, List.length_replicate]
    rfl

/-! ## Whole numbers -/

/-- The text of a whole number holds digits and a dash only. -/
theorem notMem_integerText {c : Char} (hc : c.isDigit = false) (hdash : c ≠ '-') (n : Int) :
    c ∉ (integerText n).toList := by
  rw [integerText, String.toList_ofList]
  split
  · intro hmem
    rcases List.mem_cons.1 hmem with heq | hmem
    · exact hdash heq
    · exact notMem_digits hc _ hmem
  · exact notMem_digits hc _

/-- Different whole numbers have different texts. -/
theorem integerText_injective : Function.Injective integerText := by
  intro first second h
  unfold integerText at h
  replace h := String.ofList_injective h
  split at h <;> split at h
  · have habs := digits_injective (List.cons.inj h).2
    omega
  · exact absurd (h ▸ List.mem_cons_self) (notMem_digits (c := '-') rfl second.natAbs)
  · exact absurd (h ▸ List.mem_cons_self) (notMem_digits (c := '-') rfl first.natAbs)
  · have habs := digits_injective h
    omega

end MiniPascal.Text
