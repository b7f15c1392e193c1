import MiniPascal.Binary64.Rounding

/-!
# Rounding of quotients

How a quotient is rounded to a double depends on its value only, not on how it is written as a
quotient. Main statements: equal quotients are rounded alike (`Binary64.nearestMagnitude_congr`),
and a quotient that is the value of a double is rounded to this double
(`Binary64.nearestMagnitude_eq_of_units`).
-/

namespace MiniPascal

/-! ## Whole numbers -/

/-- A factor on both sides of a quotient does not change how it is rounded. -/
theorem roundQuotient_mul {factor : Nat} (h : 0 < factor) (numerator denominator : Nat) :
    roundQuotient (numerator * factor) (denominator * factor) =
      roundQuotient numerator denominator := by
  unfold roundQuotient
  simp only [Nat.mul_div_mul_right _ _ h, Nat.mul_mod_mul_right, ← Nat.mul_assoc,
    Nat.mul_lt_mul_right h]

/-- A quotient that is a whole number is rounded to this number. -/
theorem roundQuotient_mul_self {denominator : Nat} (h : 0 < denominator) (quotient : Nat) :
    roundQuotient (quotient * denominator) denominator = quotient := by
  unfold roundQuotient
  rw [Nat.mul_div_cancel _ h, Nat.mul_mod_left, if_pos h]

namespace Binary64

/-! ## Signs and magnitudes -/

/-- The magnitude of the number that is made of one. -/
theorem magnitude_ofMagnitude {magnitude : Nat} (h : magnitude ≤ infinityMagnitude) :
    (ofMagnitude magnitude).magnitude = magnitude := by
  have hbound : infinityMagnitude < 2 ^ 63 := by decide
  show magnitude % 2 ^ 64 % 2 ^ 63 = magnitude
  omega

/-- A number made of a magnitude has no sign. -/
theorem isNegative_ofMagnitude {magnitude : Nat} (h : magnitude ≤ infinityMagnitude) :
    (ofMagnitude magnitude).isNegative = false := by
  have hbound : infinityMagnitude < 2 ^ 63 := by decide
  have hlt : ¬ 2 ^ 63 ≤ magnitude % 2 ^ 64 := by omega
  exact decide_eq_false hlt

/-- A double is its sign and its magnitude. -/
theorem eq_of_magnitude_eq {x y : Binary64} (hsign : x.isNegative = y.isNegative)
    (hmagnitude : x.magnitude = y.magnitude) : x = y := by
  have hx := x.bits.toNat_lt
  have hy := y.bits.toNat_lt
  replace hsign : 2 ^ 63 ≤ x.bits.toNat ↔ 2 ^ 63 ≤ y.bits.toNat := decide_eq_decide.1 hsign
  replace hmagnitude : x.bits.toNat % 2 ^ 63 = y.bits.toNat % 2 ^ 63 := hmagnitude
  have hbits : x.bits.toNat = y.bits.toNat := by omega
  exact congrArg mk (UInt64.toNat_inj.1 hbits)

/-- The magnitude of a double that is no NaN is at most infinity. -/
theorem magnitude_le_of_isNaN {x : Binary64} (h : x.isNaN = false) :
    x.magnitude ≤ infinityMagnitude :=
  Nat.le_of_not_lt (of_decide_eq_false h)

/-! ## Scales and significands -/

/-- A magnitude is put together of its scale and its significand. -/
theorem scale_add_significand (magnitude : Nat) :
    scale magnitude * Nat.pow 2 52 + significand magnitude = magnitude := by
  show (magnitude / 2 ^ 52 - 1) * 2 ^ 52 +
    (if magnitude < 2 ^ 52 then magnitude else 2 ^ 52 + magnitude % 2 ^ 52) = magnitude
  split <;> omega

/-- A significand has no more than 53 bits, and unless the scale is zero, all of them. -/
theorem significand_bounds (magnitude : Nat) :
    significand magnitude < Nat.pow 2 53 ∧
      (scale magnitude = 0 ∨ Nat.pow 2 52 ≤ significand magnitude) := by
  show (if magnitude < 2 ^ 52 then magnitude else 2 ^ 52 + magnitude % 2 ^ 52) < 2 ^ 53 ∧
    (magnitude / 2 ^ 52 - 1 = 0 ∨
      2 ^ 52 ≤ if magnitude < 2 ^ 52 then magnitude else 2 ^ 52 + magnitude % 2 ^ 52)
  split <;> omega

/-- The scale of a magnitude is what its value has above 53 bits. -/
theorem log2_units_sub (magnitude : Nat) : (units magnitude).log2 - 52 = scale magnitude := by
  obtain ⟨hlt, hzero | hle⟩ := significand_bounds magnitude
  · have hunits : units magnitude = significand magnitude := by
      rw [units, hzero]
      exact Nat.mul_one _
    by_cases hvalue : significand magnitude = 0
    · rw [hunits, hvalue, hzero]
      rfl
    · have hlog := (Nat.log2_lt hvalue).2 hlt
      rw [hunits, hzero]
      omega
  · have hpos : 0 < 2 ^ scale magnitude := Nat.two_pow_pos _
    have hlower : 2 ^ (scale magnitude + 52) ≤ units magnitude := by
      rw [Nat.pow_add, Nat.mul_comm]
      exact Nat.mul_le_mul_right _ hle
    have hupper : units magnitude < 2 ^ (scale magnitude + 52 + 1) := by
      rw [Nat.add_assoc, Nat.pow_add, Nat.mul_comm]
      exact Nat.mul_lt_mul_of_pos_right hlt hpos
    have hne : units magnitude ≠ 0 := by
      have := Nat.two_pow_pos (scale magnitude + 52)
      omega
    rw [(Nat.log2_eq_iff hne).2 ⟨hlower, hupper⟩, Nat.add_sub_cancel]

/-! ## Nearest doubles -/

/-- No magnitude past infinity is ever the nearest one. -/
theorem nearestMagnitude_le (numerator denominator : Nat) :
    nearestMagnitude numerator denominator ≤ infinityMagnitude :=
  Nat.min_le_right _ _

/-- A factor on both sides of a quotient does not change the nearest magnitude. -/
theorem nearestMagnitude_mul {factor : Nat} (h : 0 < factor) (numerator denominator : Nat) :
    nearestMagnitude (numerator * factor) (denominator * factor) =
      nearestMagnitude numerator denominator := by
  unfold nearestMagnitude
  simp only [Nat.mul_right_comm _ factor, Nat.mul_div_mul_right _ _ h, roundQuotient_mul h]

/-- **Equal quotients have the same nearest magnitude.** -/
theorem nearestMagnitude_congr {numerator denominator numerator' denominator' : Nat}
    (hpos : 0 < denominator) (hpos' : 0 < denominator')
    (h : numerator * denominator' = numerator' * denominator) :
    nearestMagnitude numerator denominator = nearestMagnitude numerator' denominator' := by
  calc nearestMagnitude numerator denominator
      = nearestMagnitude (numerator * denominator') (denominator * denominator') :=
        (nearestMagnitude_mul hpos' _ _).symm
    _ = nearestMagnitude (numerator' * denominator) (denominator' * denominator) := by
        rw [h, Nat.mul_comm denominator]
    _ = nearestMagnitude numerator' denominator' := nearestMagnitude_mul hpos _ _

/-- **The value of a double has its magnitude as the nearest one.** -/
theorem nearestMagnitude_eq_of_units {numerator denominator magnitude : Nat}
    (hpos : 0 < denominator) (hmagnitude : magnitude ≤ infinityMagnitude)
    (h : numerator * Nat.pow 2 1074 = units magnitude * denominator) :
    nearestMagnitude numerator denominator = magnitude := by
  have hscale : 0 < denominator * Nat.pow 2 (scale magnitude) :=
    Nat.mul_pos hpos (Nat.two_pow_pos _)
  -- the significand is a whole number, so that rounding leaves it as it is
  have hround : roundQuotient (units magnitude * denominator)
      (denominator * Nat.pow 2 (scale magnitude)) = significand magnitude := by
    rw [units, Nat.mul_assoc, Nat.mul_comm (Nat.pow 2 _) denominator]
    exact roundQuotient_mul_self hscale _
  unfold nearestMagnitude
  simp only [h, Nat.mul_div_cancel _ hpos, log2_units_sub, hround]
  rw [scale_add_significand, Nat.min_eq_left hmagnitude]

/-- The nearest double to a quotient is a number without sign. -/
theorem isNaN_nearest (numerator denominator : Nat) :
    (nearest numerator denominator).isNaN = false ∧
      (nearest numerator denominator).isNegative = false := by
  have hle := nearestMagnitude_le numerator denominator
  refine ⟨decide_eq_false ?_, isNegative_ofMagnitude hle⟩
  rw [nearest, magnitude_ofMagnitude hle]
  exact Nat.not_lt_of_le hle

end Binary64

end MiniPascal
