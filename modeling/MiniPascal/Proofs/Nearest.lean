import MiniPascal.Proofs.Rounding
import Mathlib.Algebra.Order.Field.Rat
import Mathlib.Algebra.Order.Ring.Abs
import Mathlib.Tactic.Linarith
import Mathlib.Tactic.Ring

/-!
# Nearest doubles

The values of magnitudes, in units of the least positive number, are spaced by powers of two that
grow with them. Rounding a quotient on the spacing that belongs to it therefore finds the nearest
value of all. Main statements: the magnitude that is found is nearest
(`Binary64.isNearestMagnitude_unbounded`), and it grows with the quotient
(`Binary64.IsNearestMagnitude.le_of_le`).
-/

namespace MiniPascal

/-! ## Nearest whole numbers -/

/-- A rounded quotient is the quotient without its fraction, or one more. -/
theorem div_le_roundQuotient (numerator denominator : Nat) :
    numerator / denominator ≤ roundQuotient numerator denominator ∧
      roundQuotient numerator denominator ≤ numerator / denominator + 1 := by
  unfold roundQuotient
  dsimp only
  split
  · omega
  · split <;> omega

/-- A quotient is rounded by a half at most, and by a half only to an even number. -/
theorem roundQuotient_bounds (numerator : Nat) {denominator : Nat} (h : 0 < denominator) :
    2 * numerator ≤ 2 * (roundQuotient numerator denominator * denominator) + denominator ∧
      2 * (roundQuotient numerator denominator * denominator) ≤ 2 * numerator + denominator ∧
      (2 * numerator = 2 * (roundQuotient numerator denominator * denominator) + denominator ∨
        2 * (roundQuotient numerator denominator * denominator) = 2 * numerator + denominator →
          roundQuotient numerator denominator % 2 = 0) := by
  have hdiv := Nat.div_add_mod numerator denominator
  have hmod := Nat.mod_lt numerator h
  rw [Nat.mul_comm] at hdiv
  unfold roundQuotient
  dsimp only
  generalize numerator / denominator = quotient at hdiv ⊢
  generalize numerator % denominator = remainder at hdiv hmod ⊢
  have hsucc : (quotient + 1) * denominator = quotient * denominator + denominator :=
    Nat.succ_mul _ _
  split
  · omega
  · split
    · rw [hsucc]
      omega
    · rcases Nat.mod_two_eq_zero_or_one quotient with heven | hodd
      · rw [heven, Nat.add_zero]
        omega
      · rw [hodd, hsucc]
        omega

/-- The distance of a quotient from the rounded one, as a number. -/
theorem abs_roundQuotient_sub_le_half (numerator : Nat) {denominator : Nat}
    (h : 0 < denominator) :
    |(roundQuotient numerator denominator : ℚ) - numerator / denominator| ≤ 1 / 2 ∧
      (|(roundQuotient numerator denominator : ℚ) - numerator / denominator| = 1 / 2 →
        roundQuotient numerator denominator % 2 = 0) := by
  obtain ⟨hlower, hupper, heven⟩ := roundQuotient_bounds numerator h
  generalize roundQuotient numerator denominator = rounded at *
  have hpos : (0 : ℚ) < denominator := Nat.cast_pos.2 h
  have hcancel : (numerator : ℚ) / denominator * denominator = numerator :=
    div_mul_cancel₀ _ hpos.ne'
  refine ⟨abs_le.2 ⟨?_, ?_⟩, fun hhalf => heven ?_⟩
  · have hle : (numerator : ℚ) / denominator ≤ rounded + 1 / 2 := by
      rw [div_le_iff₀ hpos]
      have hcast : (2 * numerator : ℚ) ≤ 2 * (rounded * denominator) + denominator := by
        exact_mod_cast hlower
      linarith
    linarith
  · have hle : (rounded : ℚ) - 1 / 2 ≤ numerator / denominator := by
      rw [le_div_iff₀ hpos]
      have hcast : (2 * (rounded * denominator) : ℚ) ≤ 2 * numerator + denominator := by
        exact_mod_cast hupper
      linarith
    linarith
  · rcases (abs_eq (by norm_num)).1 hhalf with hdistance | hdistance
    · right
      have hcast : (2 * (rounded * denominator) : ℚ) = 2 * numerator + denominator := by
        rw [sub_eq_iff_eq_add] at hdistance
        rw [hdistance, add_mul, hcancel]
        ring
      exact_mod_cast hcast
    · left
      have hcast : (2 * numerator : ℚ) = 2 * (rounded * denominator) + denominator := by
        rw [sub_eq_iff_eq_add] at hdistance
        rw [hdistance, add_mul, hcancel]
        ring
      exact_mod_cast hcast

/-- Different whole numbers are one apart at least. -/
theorem one_le_abs_sub_of_ne {m n : Nat} (h : m ≠ n) : (1 : ℚ) ≤ |(m : ℚ) - n| := by
  rcases Nat.lt_or_gt_of_ne h with hlt | hlt
  · have hcast : (m : ℚ) + 1 ≤ n := by exact_mod_cast hlt
    rw [le_abs]
    right
    linarith
  · have hcast : (n : ℚ) + 1 ≤ m := by exact_mod_cast hlt
    rw [le_abs]
    left
    linarith

/-- **No whole number is nearer to a quotient than the rounded one**, and where another one is as
near the rounded one is even. -/
theorem abs_roundQuotient_sub_le (numerator : Nat) {denominator : Nat} (h : 0 < denominator)
    (other : Nat) :
    |(roundQuotient numerator denominator : ℚ) - numerator / denominator| ≤
        |(other : ℚ) - numerator / denominator| ∧
      (other ≠ roundQuotient numerator denominator →
        |(roundQuotient numerator denominator : ℚ) - numerator / denominator| =
          |(other : ℚ) - numerator / denominator| →
        roundQuotient numerator denominator % 2 = 0) := by
  obtain ⟨hhalf, heven⟩ := abs_roundQuotient_sub_le_half numerator h
  generalize roundQuotient numerator denominator = rounded at *
  generalize (numerator : ℚ) / denominator = target at *
  by_cases hother : other = rounded
  · rw [hother]
    exact ⟨le_rfl, fun hne => absurd rfl hne⟩
  · have hone := one_le_abs_sub_of_ne hother
    have htriangle := abs_sub_le (other : ℚ) target rounded
    rw [abs_sub_comm target] at htriangle
    refine ⟨by linarith, fun _ hsame => heven ?_⟩
    linarith

namespace Binary64

/-! ## Values of magnitudes -/

/-- Powers of two, in the form in which magnitudes hold them, are the same as rational numbers. -/
theorem cast_two_pow (exponent : Nat) : ((Nat.pow 2 exponent : Nat) : ℚ) = 2 ^ exponent :=
  Nat.cast_pow 2 exponent

/-- A magnitude that is put together of a scale and a significand for it has these parts. -/
theorem scale_scale_add {scale significand : Nat} (hlt : significand < Nat.pow 2 53)
    (hfull : scale = 0 ∨ Nat.pow 2 52 ≤ significand) :
    Binary64.scale (scale * Nat.pow 2 52 + significand) = scale ∧
      Binary64.significand (scale * Nat.pow 2 52 + significand) = significand := by
  unfold Binary64.scale Binary64.significand
  have hlow : Nat.pow 2 52 = 4503599627370496 := rfl
  have hhigh : Nat.pow 2 53 = 9007199254740992 := rfl
  rw [hhigh] at hlt
  rw [hlow] at hfull ⊢
  refine ⟨by omega, ?_⟩
  split <;> omega

/-- The value of a magnitude that is put together of a scale and a significand. The significand may
be too large by one, which carries into the next scale. -/
theorem units_scale_add {scale significand : Nat} (hle : significand ≤ Nat.pow 2 53)
    (hfull : scale = 0 ∨ Nat.pow 2 52 ≤ significand) :
    units (scale * Nat.pow 2 52 + significand) = significand * Nat.pow 2 scale := by
  rcases Nat.lt_or_eq_of_le hle with hlt | hcarry
  · obtain ⟨hscale, hsignificand⟩ := scale_scale_add hlt hfull
    rw [units, hscale, hsignificand]
  · have hparts : scale * Nat.pow 2 52 + significand =
        (scale + 1) * Nat.pow 2 52 + Nat.pow 2 52 := by
      rw [hcarry, Nat.succ_mul, Nat.add_assoc]
    have hlt : Nat.pow 2 52 < Nat.pow 2 53 := by decide
    obtain ⟨hscale, hsignificand⟩ := scale_scale_add hlt (Or.inr (Nat.le_refl _))
    rw [hparts, units, hscale, hsignificand, hcarry]
    show Nat.pow 2 52 * (Nat.pow 2 scale * 2) = Nat.pow 2 52 * 2 * Nat.pow 2 scale
    ring

/-- The next magnitude is larger by one step of the scale. -/
theorem units_succ (magnitude : Nat) :
    units (magnitude + 1) = units magnitude + Nat.pow 2 (scale magnitude) := by
  obtain ⟨hlt, hfull⟩ := significand_bounds magnitude
  have hnext : scale magnitude = 0 ∨ Nat.pow 2 52 ≤ significand magnitude + 1 := by omega
  have hunits : units (scale magnitude * Nat.pow 2 52 + (significand magnitude + 1)) =
      (significand magnitude + 1) * Nat.pow 2 (scale magnitude) :=
    units_scale_add hlt hnext
  rwa [← Nat.add_assoc, scale_add_significand, Nat.succ_mul] at hunits

/-- Larger magnitudes have larger values. -/
theorem units_strictMono : StrictMono units := by
  apply strictMono_nat_of_lt_succ
  intro magnitude
  rw [units_succ]
  exact Nat.lt_add_of_pos_right (Nat.two_pow_pos _)

/-- A value lies on the spacing of a scale, or it is too small for it. -/
theorem exists_units_eq_or_lt (magnitude scale : Nat) :
    (∃ count, units magnitude = count * Nat.pow 2 scale) ∨
      scale ≠ 0 ∧ units magnitude < Nat.pow 2 52 * Nat.pow 2 scale := by
  by_cases hle : scale ≤ Binary64.scale magnitude
  · left
    refine ⟨significand magnitude * Nat.pow 2 (Binary64.scale magnitude - scale), ?_⟩
    have hpow : Nat.pow 2 (Binary64.scale magnitude) =
        Nat.pow 2 (Binary64.scale magnitude - scale) * Nat.pow 2 scale := by
      conv_lhs => rw [← Nat.sub_add_cancel hle]
      exact Nat.pow_add 2 _ _
    rw [units, hpow, Nat.mul_assoc]
  · right
    obtain ⟨hlt, -⟩ := significand_bounds magnitude
    refine ⟨by omega, ?_⟩
    calc units magnitude < Nat.pow 2 53 * Nat.pow 2 (Binary64.scale magnitude) :=
          Nat.mul_lt_mul_of_pos_right hlt (Nat.two_pow_pos _)
      _ = Nat.pow 2 52 * Nat.pow 2 (Binary64.scale magnitude + 1) := by
          show Nat.pow 2 52 * 2 * _ = Nat.pow 2 52 * (_ * 2)
          ring
      _ ≤ Nat.pow 2 52 * Nat.pow 2 scale :=
          Nat.mul_le_mul_left _ (Nat.pow_le_pow_right (by decide) (by omega))

/-! ## Nearest magnitudes -/

/-- A magnitude has a value that is nearest to a target, in units of the least positive number, and
it is even if another one is as near. -/
structure IsNearestMagnitude (target : ℚ) (magnitude : Nat) : Prop where
  abs_le : ∀ other, |(units magnitude : ℚ) - target| ≤ |(units other : ℚ) - target|
  even : ∀ other, other ≠ magnitude →
    |(units magnitude : ℚ) - target| = |(units other : ℚ) - target| → magnitude % 2 = 0

/-- The magnitude nearest to a quotient if magnitudes had no end. -/
def unboundedMagnitude (numerator denominator : Nat) : Nat :=
  let scaled := numerator * Nat.pow 2 1074
  let scale := (scaled / denominator).log2 - 52
  scale * Nat.pow 2 52 + roundQuotient scaled (denominator * Nat.pow 2 scale)

/-- The nearest magnitude is the one without end, or infinity before it. -/
theorem nearestMagnitude_eq_min (numerator denominator : Nat) :
    nearestMagnitude numerator denominator =
      min (unboundedMagnitude numerator denominator) infinityMagnitude :=
  rfl

/-- On the spacing that is chosen for a quotient it has 53 bits, and no fewer unless the spacing is
the finest one. -/
theorem scaled_bounds {scaled denominator scale : Nat} (h : 0 < denominator)
    (hscale : scale = (scaled / denominator).log2 - 52) :
    scaled < Nat.pow 2 53 * (denominator * Nat.pow 2 scale) ∧
      (scale = 0 ∨ Nat.pow 2 52 * (denominator * Nat.pow 2 scale) ≤ scaled) := by
  generalize hquotient : scaled / denominator = quotient at hscale
  constructor
  · have hlt : quotient < Nat.pow 2 (53 + scale) := by
      calc quotient < 2 ^ (quotient.log2 + 1) := Nat.lt_log2_self
        _ ≤ Nat.pow 2 (53 + scale) := Nat.pow_le_pow_right (by decide) (by omega)
    rw [← hquotient, Nat.div_lt_iff_lt_mul h] at hlt
    calc scaled < Nat.pow 2 (53 + scale) * denominator := hlt
      _ = Nat.pow 2 53 * (denominator * Nat.pow 2 scale) := by
        rw [show Nat.pow 2 (53 + scale) = Nat.pow 2 53 * Nat.pow 2 scale from Nat.pow_add 2 _ _]
        ring
  · by_cases hzero : scale = 0
    · exact Or.inl hzero
    · have hlog : quotient.log2 = 52 + scale := by omega
      have hne : quotient ≠ 0 := by
        rintro rfl
        rw [Nat.log2_zero] at hlog
        omega
      have hle : Nat.pow 2 (52 + scale) ≤ quotient := by
        rw [← hlog]
        exact Nat.log2_self_le hne
      rw [← hquotient, Nat.le_div_iff_mul_le h] at hle
      right
      calc Nat.pow 2 52 * (denominator * Nat.pow 2 scale)
          = Nat.pow 2 (52 + scale) * denominator := by
            rw [show Nat.pow 2 (52 + scale) = Nat.pow 2 52 * Nat.pow 2 scale from
              Nat.pow_add 2 _ _]
            ring
        _ ≤ scaled := hle

/-- Distances on the spacing of a scale are those of the counts, multiplied. -/
theorem abs_mul_pow_sub (count scale : Nat) (target : ℚ) :
    |((count * Nat.pow 2 scale : Nat) : ℚ) - target * 2 ^ scale| =
      |(count : ℚ) - target| * 2 ^ scale := by
  have hpos : (0 : ℚ) < 2 ^ scale := by positivity
  rw [Nat.cast_mul, cast_two_pow, ← sub_mul, abs_mul, abs_of_pos hpos]

/-- The values of smaller scales are farther from a quotient of 53 bits than its rounding is. -/
theorem abs_roundQuotient_sub_lt {scaled spacing scale other : Nat} (hpos : 0 < spacing)
    (hbits : Nat.pow 2 52 * spacing ≤ scaled)
    (hother : units other < Nat.pow 2 52 * Nat.pow 2 scale) :
    |(roundQuotient scaled spacing : ℚ) - scaled / spacing| * 2 ^ scale <
      |(units other : ℚ) - scaled / spacing * 2 ^ scale| := by
  have hscale : (0 : ℚ) < 2 ^ scale := by positivity
  have htarget : (2 ^ 52 : ℚ) ≤ scaled / spacing := by
    rw [le_div_iff₀ (Nat.cast_pos.2 hpos)]
    exact_mod_cast hbits
  have hpower := (abs_roundQuotient_sub_le scaled hpos (Nat.pow 2 52)).1
  have hcast : (units other : ℚ) < 2 ^ 52 * 2 ^ scale := by exact_mod_cast hother
  rw [cast_two_pow, abs_sub_comm (2 ^ 52 : ℚ), abs_of_nonneg (sub_nonneg.2 htarget)] at hpower
  calc |(roundQuotient scaled spacing : ℚ) - scaled / spacing| * 2 ^ scale
      ≤ ((scaled / spacing : ℚ) - 2 ^ 52) * 2 ^ scale :=
        mul_le_mul_of_nonneg_right hpower hscale.le
    _ < scaled / spacing * 2 ^ scale - units other := by
        rw [sub_mul]
        exact sub_lt_sub_left hcast _
    _ ≤ |(units other : ℚ) - scaled / spacing * 2 ^ scale| := by
        rw [abs_sub_comm]
        exact le_abs_self _

/-- Rounding a quotient of 53 bits on a spacing, or one of fewer bits on the finest spacing, finds
the nearest of all magnitudes. -/
theorem isNearestMagnitude_of_bounds {scaled spacing scale : Nat} (hpos : 0 < spacing)
    (hlt : scaled < Nat.pow 2 53 * spacing)
    (hfull : scale = 0 ∨ Nat.pow 2 52 * spacing ≤ scaled) :
    IsNearestMagnitude (scaled / spacing * 2 ^ scale)
      (scale * Nat.pow 2 52 + roundQuotient scaled spacing) := by
  have hscale : (0 : ℚ) < 2 ^ scale := by positivity
  obtain ⟨hle, hge⟩ := div_le_roundQuotient scaled spacing
  have hlt' := (Nat.div_lt_iff_lt_mul hpos).2 hlt
  have hunits : units (scale * Nat.pow 2 52 + roundQuotient scaled spacing) =
      roundQuotient scaled spacing * Nat.pow 2 scale := by
    refine units_scale_add (by omega) (hfull.imp_right fun hbits => ?_)
    exact Nat.le_trans ((Nat.le_div_iff_mul_le hpos).2 hbits) hle
  have hnearest := abs_roundQuotient_sub_le scaled hpos
  refine ⟨fun other => ?_, fun other hne hsame => ?_⟩
  · rw [hunits, abs_mul_pow_sub]
    rcases exists_units_eq_or_lt other scale with ⟨count, hcount⟩ | ⟨hsome, hother⟩
    · rw [hcount, abs_mul_pow_sub]
      exact mul_le_mul_of_nonneg_right (hnearest count).1 hscale.le
    · exact (abs_roundQuotient_sub_lt hpos (hfull.resolve_left hsome) hother).le
  · rw [hunits, abs_mul_pow_sub] at hsame
    rcases exists_units_eq_or_lt other scale with ⟨count, hcount⟩ | ⟨hsome, hother⟩
    · rw [hcount, abs_mul_pow_sub] at hsame
      have hcounts : count ≠ roundQuotient scaled spacing := by
        rintro rfl
        exact hne (units_strictMono.injective (hcount.trans hunits.symm))
      have heven := (hnearest count).2 hcounts (mul_right_cancel₀ hscale.ne' hsame)
      have hpow : Nat.pow 2 52 = 4503599627370496 := rfl
      rw [hpow]
      omega
    · exact absurd hsame (abs_roundQuotient_sub_lt hpos (hfull.resolve_left hsome) hother).ne

/-- A quotient in units of a power of two is rounded to the nearest magnitude. -/
theorem isNearestMagnitude_scaled (numerator : Nat) {denominator : Nat} (h : 0 < denominator)
    (least : Nat) {scaled scale : Nat} (hscaled : scaled = numerator * Nat.pow 2 least)
    (hscale : scale = (scaled / denominator).log2 - 52) :
    IsNearestMagnitude (numerator / denominator * 2 ^ least)
      (scale * Nat.pow 2 52 + roundQuotient scaled (denominator * Nat.pow 2 scale)) := by
  have hpos : (0 : ℚ) < 2 ^ scale := by positivity
  have htarget : (numerator / denominator * 2 ^ least : ℚ) =
      (scaled : ℚ) / (denominator * Nat.pow 2 scale : Nat) * 2 ^ scale := by
    rw [hscaled, Nat.cast_mul, Nat.cast_mul, cast_two_pow, cast_two_pow, div_mul_eq_mul_div,
      div_mul_eq_mul_div, mul_div_mul_right _ _ hpos.ne']
  obtain ⟨hlt, hfull⟩ := scaled_bounds h hscale
  rw [htarget]
  exact isNearestMagnitude_of_bounds (Nat.mul_pos h (Nat.two_pow_pos _)) hlt hfull

/-- **Rounding on the spacing of a quotient finds the nearest of all magnitudes.** -/
theorem isNearestMagnitude_unbounded (numerator : Nat) {denominator : Nat} (h : 0 < denominator) :
    IsNearestMagnitude (numerator / denominator * 2 ^ 1074)
      (unboundedMagnitude numerator denominator) := by
  unfold unboundedMagnitude
  generalize 1074 = least
  exact isNearestMagnitude_scaled numerator h least rfl rfl

/-! ## Ties and order -/

/-- Of two numbers the larger one is as near to a target as the other one, or nearer, from their
middle on. -/
theorem abs_sub_le_abs_sub_iff {lower upper target : ℚ} (h : lower < upper) :
    |upper - target| ≤ |lower - target| ↔ lower + upper ≤ 2 * target := by
  have hpos : 0 < upper - lower := sub_pos.2 h
  have hsquares : (lower - target) ^ 2 - (upper - target) ^ 2 =
      (upper - lower) * (2 * target - (lower + upper)) := by ring
  rw [← sq_le_sq, ← sub_nonneg, hsquares, mul_nonneg_iff_of_pos_left hpos, sub_nonneg]

/-- And up to their middle it is the smaller one. -/
theorem abs_sub_le_abs_sub_iff' {lower upper target : ℚ} (h : lower < upper) :
    |lower - target| ≤ |upper - target| ↔ 2 * target ≤ lower + upper := by
  have hpos : 0 < upper - lower := sub_pos.2 h
  have hsquares : (upper - target) ^ 2 - (lower - target) ^ 2 =
      (upper - lower) * (lower + upper - 2 * target) := by ring
  rw [← sq_le_sq, ← sub_nonneg, hsquares, mul_nonneg_iff_of_pos_left hpos, sub_nonneg]

/-- Between two numbers that are as near to a target, all are nearer. -/
theorem abs_sub_lt_of_between {first between last target : ℚ} (hfirst : first < between)
    (hlast : between < last) (hsame : |first - target| = |last - target|) :
    |between - target| < |first - target| := by
  rcases abs_eq_abs.1 hsame with heq | heq
  · linarith
  · rw [abs_of_neg (by linarith : first - target < 0), abs_lt]
    constructor <;> linarith

namespace IsNearestMagnitude

variable {target : ℚ} {magnitude : Nat}

/-- Another magnitude that is as near as the nearest one is odd. -/
theorem odd_of_abs_eq (h : IsNearestMagnitude target magnitude) {other : Nat}
    (hne : other ≠ magnitude)
    (hsame : |(units magnitude : ℚ) - target| = |(units other : ℚ) - target|) :
    other % 2 = 1 := by
  have heven := h.even other hne hsame
  have hcast : ∀ m n : Nat, m < n → (units m : ℚ) < units n := fun m n hlt =>
    Nat.cast_lt.2 (units_strictMono hlt)
  rw [← Nat.mod_two_ne_zero]
  -- between two even ones there is an odd one, which is nearer
  intro hother
  rcases Nat.lt_or_gt_of_ne hne with hlt | hlt
  · have hnearer := abs_sub_lt_of_between (hcast other (other + 1) (by omega))
      (hcast (other + 1) magnitude (by omega)) hsame.symm
    have hle := h.abs_le (other + 1)
    linarith
  · have hnearer := abs_sub_lt_of_between (hcast magnitude (magnitude + 1) (by omega))
      (hcast (magnitude + 1) other (by omega)) hsame
    have hle := h.abs_le (magnitude + 1)
    linarith

/-- **Larger targets have larger nearest magnitudes, or the same.** -/
theorem le_of_le (h : IsNearestMagnitude target magnitude) {target' : ℚ} {magnitude' : Nat}
    (h' : IsNearestMagnitude target' magnitude') (hle : target ≤ target') :
    magnitude ≤ magnitude' := by
  by_contra hlt
  have hunits : (units magnitude' : ℚ) < units magnitude :=
    Nat.cast_lt.2 (units_strictMono (Nat.lt_of_not_le hlt))
  have hlower := h.abs_le magnitude'
  have hupper := h'.abs_le magnitude
  -- both targets can only lie half way between the two values
  have hmiddle : target' = target := by
    have hfrom := (abs_sub_le_abs_sub_iff hunits).1 hlower
    have hto := (abs_sub_le_abs_sub_iff' hunits).1 hupper
    linarith
  rw [hmiddle] at h' hupper
  have hsame := le_antisymm hlower hupper
  have hodd := h.odd_of_abs_eq (by omega) hsame
  have heven := h'.even magnitude (by omega) hsame.symm
  omega

/-- A magnitude behind an odd one is reached half way between the two. -/
theorem succ_le_iff (h : IsNearestMagnitude target magnitude) {odd : Nat} (hodd : odd % 2 = 1) :
    odd + 1 ≤ magnitude ↔ (units odd : ℚ) + units (odd + 1) ≤ 2 * target := by
  constructor
  · intro hle
    have hunits : (units odd : ℚ) < units magnitude := Nat.cast_lt.2 (units_strictMono hle)
    have hunits' : (units (odd + 1) : ℚ) ≤ units magnitude :=
      Nat.cast_le.2 (units_strictMono.monotone hle)
    have hmiddle := (abs_sub_le_abs_sub_iff hunits).1 (h.abs_le odd)
    linarith
  · intro hmiddle
    by_contra hlt
    have hunits : (units magnitude : ℚ) < units (odd + 1) :=
      Nat.cast_lt.2 (units_strictMono (Nat.lt_of_not_le hlt))
    have hunits' : (units magnitude : ℚ) ≤ units odd :=
      Nat.cast_le.2 (units_strictMono.monotone (by omega))
    have hupper := (abs_sub_le_abs_sub_iff' hunits).1 (h.abs_le (odd + 1))
    -- this is a tie between the odd magnitude and the one behind it
    have hlower := (abs_sub_le_abs_sub_iff hunits).2 (by linarith)
    have heven := h.even (odd + 1) (by omega) (le_antisymm (h.abs_le (odd + 1)) hlower)
    have hsame : magnitude = odd := by
      apply units_strictMono.injective
      have hcast : (units magnitude : ℚ) = units odd := by linarith
      exact_mod_cast hcast
    omega

end IsNearestMagnitude

end Binary64

end MiniPascal
