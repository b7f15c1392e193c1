import MiniPascal.Binary64.Text
import MiniPascal.Proofs.Digits
import MiniPascal.Proofs.Rounding

/-!
# The text of a double

The shortest decimal of a double rounds to it, and both forms in which a decimal is written tell
which number it is (`Decimal.same_of_positional_eq`, `Decimal.same_of_scientific_eq`). Main
statements: `Binary64.readsAs_shortest`, and that a double can be told from its text
(`Binary64.text_injective`).
-/

namespace MiniPascal

open Text

/-! ## Shortest decimals -/

namespace Binary64

/-- The exact decimal of a magnitude has its value. -/
theorem exactDecimal_coefficient_mul (magnitude : Nat) :
    (exactDecimal magnitude).coefficient * Nat.pow 2 1074 =
      units magnitude * Nat.pow 10 (exactDecimal magnitude).places := by
  rw [exactDecimal, units]
  generalize scale magnitude = scale
  generalize 1074 = least
  simp only [Nat.pow_eq]
  split
  · next hle =>
    rw [Nat.mul_assoc, ← Nat.pow_add, Nat.sub_add_cancel hle, Nat.pow_zero, Nat.mul_one]
  · next hlt =>
    -- ten to the power of the places is that many fives and that many twos
    have hsum : 2 ^ least = 2 ^ scale * 2 ^ (least - scale) := by
      rw [← Nat.pow_add, Nat.add_sub_cancel' (Nat.le_of_not_le hlt)]
    show significand magnitude * 5 ^ (least - scale) * 2 ^ least =
      significand magnitude * 2 ^ scale * (5 * 2) ^ (least - scale)
    rw [Nat.mul_pow, hsum, Nat.mul_assoc, Nat.mul_assoc, Nat.mul_left_comm (5 ^ _)]

/-- The exact decimal of a magnitude rounds to it. -/
theorem readsAs_exactDecimal {magnitude : Nat} (h : magnitude ≤ infinityMagnitude) :
    readsAs magnitude (exactDecimal magnitude) = true :=
  beq_iff_eq.2 (nearestMagnitude_eq_of_units (Nat.pow_pos (by decide)) h
    (exactDecimal_coefficient_mul magnitude))

/-- A decimal that is found on a grid rounds to the magnitude. -/
theorem readsAs_of_onGrid? {magnitude grid : Nat} {exact decimal : Decimal}
    (h : onGrid? magnitude exact grid = some decimal) : readsAs magnitude decimal = true :=
  List.find?_some h

/-- **The shortest decimal of a magnitude rounds to it.** -/
theorem readsAs_shortest {magnitude : Nat} (h : magnitude ≤ infinityMagnitude) :
    readsAs magnitude (shortest magnitude) = true := by
  have hsearch : ∀ grids : List Nat, readsAs magnitude
      ((grids.findSome? (onGrid? magnitude (exactDecimal magnitude))).getD
        (exactDecimal magnitude)) = true := by
    intro grids
    cases hfound : grids.findSome? (onGrid? magnitude (exactDecimal magnitude)) with
    | none => exact readsAs_exactDecimal h
    | some decimal =>
      obtain ⟨grid, -, hgrid⟩ := List.exists_of_findSome?_eq_some hfound
      exact readsAs_of_onGrid? hgrid
  exact hsearch _

end Binary64

/-! ## Texts of decimals -/

namespace Decimal

/-- Two decimals are the same number. -/
def Same (first second : Decimal) : Prop :=
  first.coefficient * Nat.pow 10 second.places = second.coefficient * Nat.pow 10 first.places

/-- Decimals that are the same number round to the same magnitude. -/
theorem Same.eq_of_readsAs {first second : Decimal} (h : first.Same second)
    {magnitude magnitude' : Nat} (hfirst : Binary64.readsAs magnitude first = true)
    (hsecond : Binary64.readsAs magnitude' second = true) : magnitude = magnitude' := by
  rw [← beq_iff_eq.1 hfirst, ← beq_iff_eq.1 hsecond]
  exact Binary64.nearestMagnitude_congr (Nat.pow_pos (by decide)) (Nat.pow_pos (by decide)) h

/-! ### The positional form -/

/-- The digits after the point are the significant ones. -/
theorem fraction_eq (d : Decimal) : d.fraction =
    significantDigits (paddedDigits d.places (d.coefficient % Nat.pow 10 d.places)) :=
  rfl

/-- The digits after the point denote the part of a decimal that is no whole number. -/
theorem ofDigits_fraction (d : Decimal) : ofDigits d.fraction * Nat.pow 10 d.places =
    d.coefficient % Nat.pow 10 d.places * Nat.pow 10 d.fraction.length := by
  have hne : paddedDigits d.places (d.coefficient % Nat.pow 10 d.places) ≠ [] :=
    List.append_ne_nil_of_right_ne_nil _ (digits_ne_nil _)
  obtain ⟨count, hlength, hvalue⟩ := exists_ofDigits_significantDigits hne
  rw [← fraction_eq] at hlength hvalue
  rw [ofDigits_paddedDigits] at hvalue
  by_cases hplaces : d.places = 0
  · -- without places the part is zero, and its only digit is one more than the places
    have hzero : d.coefficient % Nat.pow 10 d.places = 0 := by
      rw [hplaces]
      exact Nat.mod_one _
    have hpos : 0 < Nat.pow 10 count := Nat.pow_pos (by decide)
    rw [hzero] at hvalue ⊢
    rw [(Nat.mul_eq_zero.1 hvalue).resolve_right (Nat.ne_of_gt hpos), Nat.zero_mul, Nat.zero_mul]
  · rw [length_paddedDigits (Nat.pos_of_ne_zero hplaces)
      (Nat.mod_lt _ (Nat.pow_pos (by decide)))] at hlength
    rw [← hvalue, Nat.mul_assoc, ← ten_pow_add, Nat.add_comm count, hlength]

/-- **The digits before and after the point denote the decimal.** -/
theorem ofDigits_positional (d : Decimal) :
    ofDigits (d.whole ++ d.fraction) * Nat.pow 10 d.places =
      d.coefficient * Nat.pow 10 d.fraction.length := by
  have hwhole : ofDigits d.whole = d.coefficient / Nat.pow 10 d.places := ofDigits_digits _
  calc ofDigits (d.whole ++ d.fraction) * Nat.pow 10 d.places
      = (d.coefficient / Nat.pow 10 d.places * Nat.pow 10 d.places) * Nat.pow 10 d.fraction.length +
          ofDigits d.fraction * Nat.pow 10 d.places := by
        rw [ofDigits_append, hwhole, Nat.add_mul, Nat.mul_right_comm]
    _ = d.coefficient * Nat.pow 10 d.fraction.length := by
        rw [ofDigits_fraction, ← Nat.add_mul, Nat.div_add_mod']

/-- The positional form holds digits and the point only. -/
theorem notMem_positional {c : Char} (hc : c.isDigit = false) (hpoint : c ≠ '.') (d : Decimal) :
    c ∉ d.positional := by
  intro hmem
  rcases List.mem_append.1 hmem with hmem | hmem
  · exact notMem_digits hc _ hmem
  · rcases List.mem_cons.1 hmem with heq | hmem
    · exact hpoint heq
    · rw [fraction_eq] at hmem
      rcases mem_of_mem_significantDigits hmem with rfl | hmem
      · cases hc
      · exact notMem_paddedDigits hc _ _ hmem

/-- Decimals with the same positional form are the same number. -/
theorem same_of_positional_eq {first second : Decimal} (h : first.positional = second.positional) :
    first.Same second := by
  have hpoint : ∀ d : Decimal, '.' ∉ d.whole := fun _ => notMem_digits rfl _
  obtain ⟨hwhole, hfraction⟩ := eq_of_append_cons_eq (hpoint first) (hpoint second) h
  have hfirst := ofDigits_positional first
  have hsecond := ofDigits_positional second
  rw [hwhole, hfraction] at hfirst
  have hpos : 0 < Nat.pow 10 second.fraction.length := Nat.pow_pos (by decide)
  apply Nat.eq_of_mul_eq_mul_right hpos
  calc first.coefficient * Nat.pow 10 second.places * Nat.pow 10 second.fraction.length
      = first.coefficient * Nat.pow 10 second.fraction.length * Nat.pow 10 second.places :=
        Nat.mul_right_comm _ _ _
    _ = second.coefficient * Nat.pow 10 second.fraction.length * Nat.pow 10 first.places := by
        rw [← hfirst, ← hsecond, Nat.mul_right_comm]
    _ = second.coefficient * Nat.pow 10 first.places * Nat.pow 10 second.fraction.length :=
        Nat.mul_right_comm _ _ _

/-! ### The form with a power of ten -/

/-- Digits with a point behind the first one, if there are more. -/
def pointed : List Char → List Char
  | [] => ['0']
  | [leading] => [leading]
  | leading :: others => leading :: '.' :: others

/-- The form with a power of ten is made of pointed digits and an exponent. -/
theorem scientific_eq (d : Decimal) : d.scientific =
    pointed (dropTrailingZeros (digits d.coefficient)) ++
      'e' :: (integerText d.leadingExponent).toList :=
  rfl

/-- The digits among pointed ones are the significant ones. -/
theorem filter_pointed {text : List Char} (h : ∀ c ∈ text, c.isDigit = true) :
    (pointed (dropTrailingZeros text)).filter Char.isDigit = significantDigits text := by
  have hall : ∀ c ∈ significantDigits text, c.isDigit = true := by
    intro c hc
    rcases mem_of_mem_significantDigits hc with rfl | hc
    · rfl
    · exact h c hc
  rw [← List.filter_eq_self.2 hall]
  unfold significantDigits
  cases dropTrailingZeros text with
  | nil => rfl
  | cons leading others =>
    cases others with
    | nil => rfl
    | cons next others =>
      show (leading :: '.' :: next :: others).filter Char.isDigit = _
      rw [List.filter_cons, List.filter_cons_of_neg (by decide), ← List.filter_cons]

/-- The first one of the pointed digits of a number is a digit, the others are digits or the
point. -/
theorem exists_pointed_eq_cons (n : Nat) :
    ∃ leading others, pointed (dropTrailingZeros (digits n)) = leading :: others ∧
      leading.isDigit = true ∧ ∀ c ∈ others, c = '.' ∨ c.isDigit = true := by
  have hkept : ∀ c ∈ dropTrailingZeros (digits n), c.isDigit = true := by
    obtain ⟨count, hcount⟩ := exists_dropTrailingZeros_append (digits n)
    intro c hc
    apply isDigit_of_mem_digits (n := n)
    rw [← hcount]
    exact List.mem_append_left _ hc
  generalize dropTrailingZeros (digits n) = kept at hkept ⊢
  unfold pointed
  split
  · exact ⟨'0', [], rfl, rfl, by simp⟩
  · next leading => exact ⟨leading, [], rfl, hkept leading List.mem_cons_self, by simp⟩
  · next leading others _ =>
    refine ⟨leading, '.' :: others, rfl, hkept leading List.mem_cons_self, fun c hc => ?_⟩
    rcases List.mem_cons.1 hc with rfl | hc
    · exact Or.inl rfl
    · exact Or.inr (hkept c (List.mem_cons_of_mem leading hc))

/-- Pointed digits are digits and the point. -/
theorem notMem_pointed {c : Char} (hc : c.isDigit = false) (hpoint : c ≠ '.') (n : Nat) :
    c ∉ pointed (dropTrailingZeros (digits n)) := by
  obtain ⟨leading, others, hpointed, hleading, hothers⟩ := exists_pointed_eq_cons n
  rw [hpointed]
  intro hmem
  rcases List.mem_cons.1 hmem with rfl | hmem
  · rw [hleading] at hc
    cases hc
  · rcases hothers c hmem with heq | hdigit
    · exact hpoint heq
    · rw [hdigit] at hc
      cases hc

/-- The form with a power of ten holds digits, the point, an `e` and a dash only. -/
theorem notMem_scientific {c : Char} (hc : c.isDigit = false) (hother : c ∉ ['.', 'e', '-'])
    (d : Decimal) : c ∉ d.scientific := by
  rw [scientific_eq]
  simp only [List.mem_cons, List.not_mem_nil, or_false, not_or] at hother
  obtain ⟨hpoint, hletter, hdash⟩ := hother
  intro hmem
  rcases List.mem_append.1 hmem with hmem | hmem
  · exact notMem_pointed hc hpoint _ hmem
  · rcases List.mem_cons.1 hmem with heq | hmem
    · exact hletter heq
    · exact notMem_integerText hc hdash _ hmem

/-- Decimals with the same power of ten in front of the same digits are the same number. -/
theorem same_of_scientific_eq {first second : Decimal} (h : first.scientific = second.scientific) :
    first.Same second := by
  rw [scientific_eq, scientific_eq] at h
  obtain ⟨hpointed, hexponent⟩ := eq_of_append_cons_eq (notMem_pointed rfl (by decide) _)
    (notMem_pointed rfl (by decide) _) h
  -- the same digits are left of both coefficients, of which some zeros are missing
  have hkept : significantDigits (digits first.coefficient) =
      significantDigits (digits second.coefficient) := by
    rw [← filter_pointed fun c hc => isDigit_of_mem_digits hc, hpointed,
      filter_pointed fun c hc => isDigit_of_mem_digits hc]
  obtain ⟨count, hlength, hvalue⟩ :=
    exists_ofDigits_significantDigits (digits_ne_nil first.coefficient)
  obtain ⟨count', hlength', hvalue'⟩ :=
    exists_ofDigits_significantDigits (digits_ne_nil second.coefficient)
  rw [ofDigits_digits, hkept] at hvalue
  rw [ofDigits_digits] at hvalue'
  rw [hkept] at hlength
  -- the exponents count the digits, so the same zeros are missing up to the places
  have hcounts : count + second.places = count' + first.places := by
    have hsame := integerText_injective (String.toList_injective hexponent)
    unfold leadingExponent at hsame
    omega
  generalize ofDigits (significantDigits (digits second.coefficient)) = number at hvalue hvalue'
  calc first.coefficient * Nat.pow 10 second.places
      = number * Nat.pow 10 (count + second.places) := by
        rw [← hvalue, ten_pow_add, Nat.mul_assoc]
    _ = number * Nat.pow 10 (count' + first.places) := by rw [hcounts]
    _ = second.coefficient * Nat.pow 10 first.places := by
        rw [← hvalue', ten_pow_add, Nat.mul_assoc]

end Decimal

/-! ## Texts of doubles -/

namespace Binary64

/-- The text of a magnitude has one of three forms. -/
theorem magnitudeText_cases (magnitude : Nat) :
    (infinityMagnitude ≤ magnitude ∧ magnitudeText magnitude = ['i', 'n', 'f']) ∨
      magnitudeText magnitude = (shortest magnitude).positional ∨
      magnitudeText magnitude = (shortest magnitude).scientific := by
  rw [magnitudeText]
  by_cases hinfinite : infinityMagnitude ≤ magnitude
  · exact Or.inl ⟨hinfinite, if_pos hinfinite⟩
  · rw [if_neg hinfinite]
    by_cases hform : isPositional magnitude = true
    · exact Or.inr (Or.inl (if_pos hform))
    · exact Or.inr (Or.inr (if_neg hform))

/-- The text of a magnitude holds digits and a few other characters only. -/
theorem notMem_magnitudeText {c : Char} (hc : c.isDigit = false)
    (hother : c ∉ ['.', 'e', '-', 'i', 'n', 'f']) (magnitude : Nat) :
    c ∉ magnitudeText magnitude := by
  simp only [List.mem_cons, List.not_mem_nil, or_false, not_or] at hother
  rcases magnitudeText_cases magnitude with ⟨-, h⟩ | h | h
  · simp [h, hother]
  · rw [h]
    exact Decimal.notMem_positional hc hother.1 _
  · rw [h]
    exact Decimal.notMem_scientific hc (by simp [hother]) _

/-- The text of a magnitude does not start with a dash. -/
theorem head?_magnitudeText_ne (magnitude : Nat) : (magnitudeText magnitude).head? ≠ some '-' := by
  rcases magnitudeText_cases magnitude with ⟨-, h⟩ | h | h
  · rw [h]
    decide
  · rw [h]
    intro hhead
    exact Decimal.notMem_positional rfl (by decide) _ (List.mem_of_mem_head? hhead)
  · obtain ⟨leading, others, hpointed, hleading, -⟩ :=
      Decimal.exists_pointed_eq_cons (shortest magnitude).coefficient
    rw [h, Decimal.scientific_eq, hpointed, List.cons_append, List.head?_cons]
    rintro ⟨⟩
    cases hleading

/-- The form of the text of a magnitude shows in the text: an `e`, else a point, else neither. -/
theorem magnitudeText_form (magnitude : Nat) :
    ('e' ∈ magnitudeText magnitude →
      magnitudeText magnitude = (shortest magnitude).scientific) ∧
    ('e' ∉ magnitudeText magnitude → '.' ∈ magnitudeText magnitude →
      magnitudeText magnitude = (shortest magnitude).positional) ∧
    ('e' ∉ magnitudeText magnitude → '.' ∉ magnitudeText magnitude →
      infinityMagnitude ≤ magnitude) := by
  rcases magnitudeText_cases magnitude with ⟨hinfinite, h⟩ | h | h
  · rw [h]
    exact ⟨fun hletter => absurd hletter (by decide), fun _ hpoint => absurd hpoint (by decide),
      fun _ _ => hinfinite⟩
  · have hpoint : '.' ∈ magnitudeText magnitude := by
      rw [h]
      exact List.mem_append_right _ List.mem_cons_self
    refine ⟨fun hletter => ?_, fun _ _ => h, fun _ hnone => absurd hpoint hnone⟩
    rw [h] at hletter
    exact absurd hletter (Decimal.notMem_positional rfl (by decide) _)
  · have hletter : 'e' ∈ magnitudeText magnitude := by
      rw [h, Decimal.scientific_eq]
      exact List.mem_append_right _ List.mem_cons_self
    exact ⟨fun _ => h, fun hnone => absurd hletter hnone, fun hnone => absurd hletter hnone⟩

/-- A magnitude can be told from its text. -/
theorem eq_of_magnitudeText_eq {magnitude magnitude' : Nat} (hle : magnitude ≤ infinityMagnitude)
    (hle' : magnitude' ≤ infinityMagnitude)
    (h : magnitudeText magnitude = magnitudeText magnitude') : magnitude = magnitude' := by
  obtain ⟨hscientific, hpositional, hinfinite⟩ := magnitudeText_form magnitude
  obtain ⟨hscientific', hpositional', hinfinite'⟩ := magnitudeText_form magnitude'
  rw [h] at hscientific hpositional hinfinite
  have hreads := readsAs_shortest hle
  have hreads' := readsAs_shortest hle'
  by_cases hletter : 'e' ∈ magnitudeText magnitude'
  · have hsame := (hscientific hletter).symm.trans (hscientific' hletter)
    exact (Decimal.same_of_scientific_eq hsame).eq_of_readsAs hreads hreads'
  · by_cases hpoint : '.' ∈ magnitudeText magnitude'
    · have hsame := (hpositional hletter hpoint).symm.trans (hpositional' hletter hpoint)
      exact (Decimal.same_of_positional_eq hsame).eq_of_readsAs hreads hreads'
    · have hlarge := hinfinite hletter hpoint
      have hlarge' := hinfinite' hletter hpoint
      omega

/-- The text of a double that is no NaN is that of its magnitude, with a dash in front if it is
negative. -/
theorem toList_text {x : Binary64} (h : x.isNaN = false) : x.text.toList =
    if x.isNegative then '-' :: magnitudeText x.magnitude else magnitudeText x.magnitude := by
  rw [text, h]
  cases x.isNegative
  · exact String.toList_ofList
  · exact String.toList_ofList

/-- **A double can be told from its text**, unless it is a NaN. -/
theorem text_injective {x y : Binary64} (hx : x.isNaN = false) (hy : y.isNaN = false)
    (h : x.text = y.text) : x = y := by
  have hle := magnitude_le_of_isNaN hx
  have hle' := magnitude_le_of_isNaN hy
  have hlist := congrArg String.toList h
  rw [toList_text hx, toList_text hy] at hlist
  -- a dash in front can only be that of the sign
  have hhead := head?_magnitudeText_ne x.magnitude
  have hhead' := head?_magnitudeText_ne y.magnitude
  cases hsign : x.isNegative <;> cases hsign' : y.isNegative <;> rw [hsign, hsign'] at hlist
  · exact eq_of_magnitude_eq (hsign.trans hsign'.symm) (eq_of_magnitudeText_eq hle hle' hlist)
  · have hdash := congrArg List.head? hlist
    exact absurd hdash hhead
  · have hdash := congrArg List.head? hlist
    exact absurd hdash.symm hhead'
  · exact eq_of_magnitude_eq (hsign.trans hsign'.symm)
      (eq_of_magnitudeText_eq hle hle' (List.cons.inj hlist).2)

example : (ofDecimal ['0'] ['1']).text = "0.1" := by
  decide +kernel

end Binary64

end MiniPascal
