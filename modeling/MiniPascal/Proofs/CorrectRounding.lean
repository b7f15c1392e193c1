import MiniPascal.Proofs.Digits
import MiniPascal.Proofs.Nearest

/-!
# Correct rounding

A number is rounded correctly if no finite double is nearer to it than the one that is chosen, if of
two that are as near the even one is chosen, and if it becomes infinity from half a step above the
largest finite double on. Main statements: the double nearest to a decimal is the only one that is
rounded correctly (`Binary64.isNearest_decimalValue_iff`), and larger decimals are rounded to larger
doubles or to the same (`Binary64.magnitude_ofDecimal_le`).
-/

namespace MiniPascal

open Text

namespace Binary64

/-! ## Values of doubles -/

/-- Whether a double is a number other than infinity. -/
def IsFinite (x : Binary64) : Prop :=
  x.magnitude < infinityMagnitude

/-- The value of a finite double. -/
def value (x : Binary64) : ℚ :=
  let absolute : ℚ := units x.magnitude / 2 ^ 1074
  if x.isNegative then -absolute else absolute

/-- The value of a double without a sign. -/
theorem value_eq {x : Binary64} (h : x.isNegative = false) :
    x.value = units x.magnitude / 2 ^ 1074 := by
  unfold value
  rw [h]
  exact if_neg (by decide)

/-- The value of a double with a sign. -/
theorem value_eq_neg {x : Binary64} (h : x.isNegative = true) :
    x.value = -(units x.magnitude / 2 ^ 1074) := by
  unfold value
  rw [h]
  exact if_pos rfl

/-- A number with a positive value has no sign. -/
theorem isNegative_of_value_pos {x : Binary64} (h : 0 < x.value) : x.isNegative = false := by
  rw [← Bool.not_eq_true]
  intro hsign
  rw [value_eq_neg hsign] at h
  have hpos : (0 : ℚ) ≤ 2 ^ 1074 := by positivity
  exact absurd h (not_lt_of_ge (neg_nonpos_of_nonneg (div_nonneg (Nat.cast_nonneg _) hpos)))

/-- The value of a number without a sign by the fields of the format: the exponent counts from 1023,
and the fraction stands behind a one, or behind a zero in the numbers with the least exponent. -/
theorem value_eq_of_fields {x : Binary64} (hsign : x.isNegative = false) {exponent fraction : Nat}
    (hfraction : fraction < Nat.pow 2 52)
    (hfields : x.magnitude = exponent * Nat.pow 2 52 + fraction) :
    x.value = if exponent = 0 then (fraction / 2 ^ 52 : ℚ) * 2 ^ (-1022 : ℤ)
      else (1 + fraction / 2 ^ 52 : ℚ) * 2 ^ (exponent - 1023 : ℤ) := by
  have hhigh : Nat.pow 2 53 = Nat.pow 2 52 + Nat.pow 2 52 := by decide
  have hleast : (2 : ℚ) ^ 1074 = 2 ^ 52 * 2 ^ 1022 := by rw [← pow_add]
  have hbias : (2 : ℚ) ^ (-1022 : ℤ) = (2 ^ 1022)⁻¹ := zpow_neg 2 1022
  rw [value_eq hsign, hfields, hleast]
  cases exponent with
  | zero =>
    rw [if_pos rfl, units_scale_add (by omega) (Or.inl rfl), hbias]
    generalize (2 : ℚ) ^ 1022 = bias
    rw [← div_eq_mul_inv, div_div, show fraction * Nat.pow 2 0 = fraction from Nat.mul_one _]
  | succ exponent =>
    have hpow : (2 : ℚ) ^ ((exponent + 1 : Nat) - 1023 : ℤ) = 2 ^ exponent * (2 ^ 1022)⁻¹ := by
      rw [← hbias, ← zpow_natCast, ← zpow_add₀ two_ne_zero]
      congr 1
      push_cast
      ring
    have hparts : (exponent + 1) * Nat.pow 2 52 + fraction =
        exponent * Nat.pow 2 52 + (Nat.pow 2 52 + fraction) := by
      rw [Nat.succ_mul, Nat.add_assoc]
    rw [if_neg (Nat.succ_ne_zero _), hpow, hparts, units_scale_add (by omega) (Or.inr (by omega)),
      Nat.cast_mul, Nat.cast_add, cast_two_pow, cast_two_pow]
    generalize (2 : ℚ) ^ 1022 = bias
    rw [mul_div_mul_comm, add_div, div_self (by positivity), ← div_eq_mul_inv]

/-- Doubles without a sign have the same value only if they are the same. -/
theorem magnitude_eq_of_value_eq {x y : Binary64} (hx : x.isNegative = false)
    (hy : y.isNegative = false) (h : x.value = y.value) : x.magnitude = y.magnitude := by
  have hpos : (0 : ℚ) < 2 ^ 1074 := by positivity
  rw [value_eq hx, value_eq hy, div_left_inj' hpos.ne'] at h
  apply units_strictMono.injective
  exact_mod_cast h

/-- Without a sign, distances from the value are those in units of the least positive number. -/
theorem abs_value_sub {x : Binary64} (h : x.isNegative = false) (target : ℚ) :
    |x.value - target| * 2 ^ 1074 = |(units x.magnitude : ℚ) - target * 2 ^ 1074| := by
  have hpos : (0 : ℚ) < 2 ^ 1074 := by positivity
  rw [value_eq h]
  generalize (2 : ℚ) ^ 1074 = power at *
  rw [← abs_of_pos hpos, ← abs_mul, abs_of_pos hpos, sub_mul, div_mul_cancel₀ _ hpos.ne']

/-- Some magnitude is as near to a number without sign as a double, or nearer: its own one, or zero
if it has a sign. It is as near only if it is the value of the double. -/
theorem exists_abs_units_sub_le (x : Binary64) {target : ℚ} (h : 0 ≤ target) :
    ∃ magnitude, |(units magnitude : ℚ) - target * 2 ^ 1074| ≤ |x.value - target| * 2 ^ 1074 ∧
      (|(units magnitude : ℚ) - target * 2 ^ 1074| = |x.value - target| * 2 ^ 1074 →
        x.value = units magnitude / 2 ^ 1074) := by
  cases hsign : x.isNegative with
  | false =>
    rw [abs_value_sub hsign]
    exact ⟨x.magnitude, le_rfl, fun _ => value_eq hsign⟩
  | true =>
    have hpos : (0 : ℚ) < 2 ^ 1074 := by positivity
    have hunits : (0 : ℚ) ≤ units x.magnitude := Nat.cast_nonneg _
    have hzero : units 0 = 0 := by decide
    refine ⟨0, ?_⟩
    rw [value_eq_neg hsign, hzero, Nat.cast_zero]
    generalize (2 : ℚ) ^ 1074 = power at *
    generalize (units x.magnitude : ℚ) = own at *
    have hscaled : 0 ≤ target * power := mul_nonneg h hpos.le
    have hdistance : |-(own / power) - target| * power = own + target * power := by
      have hsum : 0 ≤ own / power + target := add_nonneg (div_nonneg hunits hpos.le) h
      rw [← neg_add', abs_neg, abs_of_nonneg hsum, add_mul, div_mul_cancel₀ _ hpos.ne']
    rw [hdistance, zero_sub, abs_neg, abs_of_nonneg hscaled]
    refine ⟨by linarith, fun hsame => ?_⟩
    have hnone : own = 0 := by linarith
    rw [hnone, zero_div, neg_zero]

/-! ## Nearest doubles -/

/-- A double is the one that a number without sign is rounded to: it is a number without sign, and
infinity exactly from half a step above the largest finite double on. If it is finite, no finite
double is nearer, and of two different ones that are as near it is the even one. -/
structure IsNearest (target : ℚ) (x : Binary64) : Prop where
  isNegative_eq : x.isNegative = false
  isNaN_eq : x.isNaN = false
  infinite_iff : x.magnitude = infinityMagnitude ↔ 2 ^ 1024 - 2 ^ 970 ≤ target
  abs_le : x.IsFinite → ∀ y : Binary64, y.IsFinite → |x.value - target| ≤ |y.value - target|
  even : x.IsFinite → ∀ y : Binary64, y.IsFinite → y.value ≠ x.value →
    |x.value - target| = |y.value - target| → x.magnitude % 2 = 0

/-- Two values in a row around the end of a scale. -/
theorem units_add_units (scale : Nat) :
    (units (scale * Nat.pow 2 52 + (Nat.pow 2 53 - 1)) : ℚ) +
        units (scale * Nat.pow 2 52 + Nat.pow 2 53) = (2 ^ 54 - 1) * 2 ^ scale := by
  have hsum : Nat.pow 2 53 - 1 + Nat.pow 2 53 = 18014398509481983 := by decide
  rw [units_scale_add (by decide) (Or.inr (by decide)),
    units_scale_add (Nat.le_refl _) (Or.inr (by decide)), ← Nat.cast_add, ← Nat.add_mul, hsum,
    Nat.cast_mul, cast_two_pow]
  norm_num

/-- The middle between the largest finite magnitude and infinity. -/
theorem units_add_units_infinityMagnitude :
    (units (infinityMagnitude - 1) : ℚ) + units (infinityMagnitude - 1 + 1) =
      2 * ((2 ^ 1024 - 2 ^ 970) * 2 ^ 1074) := by
  have hlargest : infinityMagnitude - 1 = 2045 * Nat.pow 2 52 + (Nat.pow 2 53 - 1) := by decide
  have hinfinity : infinityMagnitude - 1 + 1 = 2045 * Nat.pow 2 52 + Nat.pow 2 53 := by decide
  have hthreshold : (2 ^ 1024 : ℚ) = 2 ^ 54 * 2 ^ 970 := by rw [← pow_add]
  have hscale : (2 ^ 2045 : ℚ) = 2 * (2 ^ 970 * 2 ^ 1074) := by rw [← pow_add, ← pow_succ']
  rw [hinfinity, hlargest, units_add_units, hscale, hthreshold]
  generalize (2 : ℚ) ^ 970 = step
  generalize (2 : ℚ) ^ 1074 = power
  ring

variable {target : ℚ} {magnitude : Nat} {x : Binary64}

/-- The magnitude of the nearest double is infinity from half a step above the largest finite
one on. -/
theorem IsNearestMagnitude.infinityMagnitude_le_iff
    (h : IsNearestMagnitude (target * 2 ^ 1074) magnitude) :
    infinityMagnitude ≤ magnitude ↔ 2 ^ 1024 - 2 ^ 970 ≤ target := by
  have hodd : (infinityMagnitude - 1) % 2 = 1 := by decide
  have hsucc : infinityMagnitude = infinityMagnitude - 1 + 1 := by decide
  have hpos : (0 : ℚ) < 2 ^ 1074 := by positivity
  rw [hsucc, h.succ_le_iff hodd, units_add_units_infinityMagnitude]
  generalize (2 : ℚ) ^ 1074 = power at *
  rw [mul_le_mul_iff_right₀ two_pos, mul_le_mul_iff_left₀ hpos]

/-- A double with the nearest magnitude, or infinity before it, is the nearest one. -/
theorem IsNearestMagnitude.isNearest (h : IsNearestMagnitude (target * 2 ^ 1074) magnitude)
    (htarget : 0 ≤ target) (hsign : x.isNegative = false)
    (hx : x.magnitude = min magnitude infinityMagnitude) : x.IsNearest target := by
  have hpos : (0 : ℚ) < 2 ^ 1074 := by positivity
  have hdistance := abs_value_sub hsign target
  have hmagnitude : x.IsFinite → x.magnitude = magnitude := by
    unfold IsFinite
    omega
  refine ⟨hsign, ?_, ?_, ?_, ?_⟩
  · refine decide_eq_false ?_
    rw [hx]
    exact Nat.not_lt_of_le (Nat.min_le_right _ _)
  · rw [hx, min_eq_right_iff, h.infinityMagnitude_le_iff]
  · intro hfinite y hy
    obtain ⟨other, hle, -⟩ := exists_abs_units_sub_le y htarget
    apply le_of_mul_le_mul_right _ hpos
    rw [hdistance, hmagnitude hfinite]
    exact (h.abs_le other).trans hle
  · intro hfinite y hy hne hsame
    obtain ⟨other, hle, hvalue⟩ := exists_abs_units_sub_le y htarget
    rw [← hsame, hdistance, hmagnitude hfinite] at hle hvalue
    have hother := le_antisymm (h.abs_le other) hle
    rw [hmagnitude hfinite]
    refine h.even other ?_ hother
    rintro rfl
    rw [hvalue hother.symm, value_eq hsign, hmagnitude hfinite] at hne
    exact hne rfl

/-- The nearest double has the nearest magnitude, or is infinity before it. -/
theorem IsNearest.magnitude_eq (hx : x.IsNearest target)
    (h : IsNearestMagnitude (target * 2 ^ 1074) magnitude) :
    x.magnitude = min magnitude infinityMagnitude := by
  have hpos : (0 : ℚ) < 2 ^ 1074 := by positivity
  have hoverflow := h.infinityMagnitude_le_iff
  rw [← hx.infinite_iff] at hoverflow
  by_cases hlarge : infinityMagnitude ≤ magnitude
  · rw [hoverflow.1 hlarge, min_eq_right hlarge]
  · have hle : magnitude ≤ infinityMagnitude := Nat.le_of_not_le hlarge
    have hfinite : x.IsFinite :=
      lt_of_le_of_ne (magnitude_le_of_isNaN hx.isNaN_eq) fun heq => hlarge (hoverflow.2 heq)
    rw [min_eq_left hle]
    by_contra hne
    -- the double with the nearest magnitude is as near, so both would have to be even
    have hsign := isNegative_ofMagnitude hle
    have hmagnitude := magnitude_ofMagnitude hle
    have hother : (ofMagnitude magnitude).IsFinite := by
      unfold IsFinite
      rw [hmagnitude]
      exact Nat.lt_of_not_le hlarge
    have hnearer := mul_le_mul_of_nonneg_right (hx.abs_le hfinite _ hother) hpos.le
    rw [abs_value_sub hx.isNegative_eq, abs_value_sub hsign, hmagnitude] at hnearer
    have hsame := le_antisymm (h.abs_le x.magnitude) hnearer
    have hodd := h.odd_of_abs_eq hne hsame
    have heven : x.magnitude % 2 = 0 := by
      refine hx.even hfinite _ hother ?_ ?_
      · intro hvalue
        rw [← magnitude_eq_of_value_eq hsign hx.isNegative_eq hvalue, hmagnitude] at hne
        exact hne rfl
      · rw [← mul_left_inj' hpos.ne', abs_value_sub hx.isNegative_eq, abs_value_sub hsign,
          hmagnitude]
        exact hsame.symm
    omega

/-- **The double nearest to a quotient is the only one that the quotient is rounded to.** -/
theorem isNearest_iff (numerator : Nat) {denominator : Nat} (h : 0 < denominator) :
    x.IsNearest (numerator / denominator) ↔ x = nearest numerator denominator := by
  have hnearest := isNearestMagnitude_unbounded numerator h
  have hsign := (isNaN_nearest numerator denominator).2
  have hmagnitude : (nearest numerator denominator).magnitude =
      min (unboundedMagnitude numerator denominator) infinityMagnitude :=
    magnitude_ofMagnitude (nearestMagnitude_le numerator denominator)
  constructor
  · intro hx
    apply eq_of_magnitude_eq
    · rw [hx.isNegative_eq, hsign]
    · rw [hx.magnitude_eq hnearest, hmagnitude]
  · rintro rfl
    exact hnearest.isNearest (div_nonneg (Nat.cast_nonneg _) (Nat.cast_nonneg _)) hsign hmagnitude

/-- Larger quotients have larger nearest magnitudes, or the same. -/
theorem nearestMagnitude_mono {numerator denominator numerator' denominator' : Nat}
    (hpos : 0 < denominator) (hpos' : 0 < denominator')
    (h : (numerator : ℚ) / denominator ≤ numerator' / denominator') :
    nearestMagnitude numerator denominator ≤ nearestMagnitude numerator' denominator' := by
  have hpower : (0 : ℚ) < 2 ^ 1074 := by positivity
  rw [nearestMagnitude_eq_min, nearestMagnitude_eq_min]
  apply min_le_min_right
  exact (isNearestMagnitude_unbounded numerator hpos).le_of_le
    (isNearestMagnitude_unbounded numerator' hpos') (mul_le_mul_of_nonneg_right h hpower.le)

/-! ## Decimals -/

/-- The number that digits before and after a point denote. -/
def decimalValue (whole fraction : List Char) : ℚ :=
  ofDigits whole + ofDigits fraction / 10 ^ fraction.length

/-- The number of a decimal as one quotient. -/
theorem decimalValue_eq (whole fraction : List Char) :
    decimalValue whole fraction =
      (ofDigits (whole ++ fraction) : ℚ) / (Nat.pow 10 fraction.length : Nat) := by
  have hpos : (0 : ℚ) < 10 ^ fraction.length := by positivity
  have hcast : ((Nat.pow 10 fraction.length : Nat) : ℚ) = 10 ^ fraction.length :=
    Nat.cast_pow 10 fraction.length
  rw [ofDigits_append, Nat.cast_add, Nat.cast_mul, hcast, add_div, mul_div_cancel_right₀ _ hpos.ne']
  rfl

/-- **The double nearest to a decimal is the only one that the decimal is rounded to.** -/
theorem isNearest_decimalValue_iff {whole fraction : List Char} :
    x.IsNearest (decimalValue whole fraction) ↔ x = ofDecimal whole fraction := by
  rw [decimalValue_eq]
  exact isNearest_iff _ (Nat.pow_pos (by decide))

/-- **Larger decimals are rounded to larger doubles**, or to the same. -/
theorem magnitude_ofDecimal_le {whole fraction whole' fraction' : List Char}
    (h : decimalValue whole fraction ≤ decimalValue whole' fraction') :
    (ofDecimal whole fraction).magnitude ≤ (ofDecimal whole' fraction').magnitude := by
  rw [decimalValue_eq, decimalValue_eq] at h
  unfold ofDecimal nearest
  rw [magnitude_ofMagnitude (nearestMagnitude_le _ _),
    magnitude_ofMagnitude (nearestMagnitude_le _ _)]
  exact nearestMagnitude_mono (Nat.pow_pos (by decide)) (Nat.pow_pos (by decide)) h

end Binary64

end MiniPascal
