import MiniPascal.Proofs.Longest

/-!
# The parts of a numeral

The whole part of a numeral has no leading zeros and its fraction no trailing ones, a single zero
apart. Main statements: both are cut off at full length (`cutsLongest_whole?`,
`cutsLongest_fraction?`), and a whole part is cut off where its digits end
(`whole?_append`).
-/

namespace MiniPascal

namespace Numeral

open Text

/-! ## Digits without idle zeros -/

/-- Decimal digits without leading zeros, a single zero apart. -/
structure IsWhole (digits : List Char) : Prop where
  ne_nil : digits ≠ []
  isDigit : ∀ d ∈ digits, d.isDigit = true
  eq_zero : digits.head? = some '0' → digits = ['0']

/-- Decimal digits without trailing zeros, a single zero apart. -/
structure IsFraction (digits : List Char) : Prop where
  ne_nil : digits ≠ []
  isDigit : ∀ d ∈ digits, d.isDigit = true
  eq_zero : digits.getLast? = some '0' → digits = ['0']

/-- A zero alone is a whole part. -/
theorem isWhole_zero : IsWhole ['0'] :=
  ⟨by simp, by simp, fun _ => rfl⟩

/-- A zero alone is a fraction. -/
theorem isFraction_zero : IsFraction ['0'] :=
  ⟨by simp, by simp, fun _ => rfl⟩

/-- Digits of which the first is not zero are a whole part. -/
theorem isWhole_cons {c : Char} {digits : List Char} (hc : c ≠ '0')
    (h : ∀ d ∈ c :: digits, d.isDigit = true) : IsWhole (c :: digits) := by
  refine ⟨by simp, h, fun hhead => ?_⟩
  rw [List.head?_cons, Option.some.injEq] at hhead
  exact absurd hhead hc

/-! ## The whole part -/

/-- A whole part is cut off where its digits end. -/
theorem whole?_append {digits rest : List Char} (h : IsWhole digits)
    (hrest : ∀ c ∈ rest.head?, c.isDigit = false) :
    whole? (digits ++ rest) = some (digits, rest) := by
  obtain ⟨hne, hdigit, hzero⟩ := h
  cases digits with
  | nil => exact absurd rfl hne
  | cons c others =>
    have hothers : ∀ d ∈ others, d.isDigit = true := fun d hd =>
      hdigit d (List.mem_cons_of_mem c hd)
    rw [List.cons_append, whole?]
    by_cases hc : c = '0'
    · have hsingle := hzero (by rw [hc, List.head?_cons])
      rw [hc, List.cons.injEq] at hsingle
      rw [if_pos hc, hsingle.2, List.nil_append, hc]
    · rw [if_neg hc, if_pos (hdigit c List.mem_cons_self),
        takeWhile_append_of_head? hothers hrest, dropWhile_append_of_head? hothers hrest]

/-- The whole part of a text is cut off at full length. -/
theorem cutsLongest_whole? : CutsLongest whole? IsWhole where
  append_eq := append_of_whole?
  isLongest := by
    intro text taken rest h
    have happend := append_of_whole? h
    cases text with
    | nil => simp [whole?] at h
    | cons c text =>
      rw [whole?] at h
      split at h
      · -- a zero is cut off alone, and no other whole part starts with it
        next hc =>
        simp only [Option.some.injEq, Prod.mk.injEq] at h
        rw [← h.1]
        refine ⟨isWhole_zero, ⟨text, by rw [hc]; rfl⟩, ?_⟩
        rintro other hother ⟨tail, htail⟩
        cases other with
        | nil => simp
        | cons d other =>
          rw [List.cons_append, List.cons.injEq] at htail
          have hsingle := hother.eq_zero (by rw [htail.1, hc, List.head?_cons])
          rw [hsingle]
      · split at h
        · next hc hdigit =>
          simp only [Option.some.injEq, Prod.mk.injEq] at h
          have htaken : taken = (c :: text).takeWhile Char.isDigit := by
            rw [List.takeWhile_cons_of_pos hdigit, h.1]
          refine ⟨?_, ⟨rest, happend⟩, ?_⟩
          · rw [← h.1]
            refine isWhole_cons hc ?_
            rw [h.1, htaken]
            intro d hd
            exact List.mem_takeWhile_imp hd
          · intro other hother hbegin
            rw [htaken]
            exact (prefix_takeWhile hother.isDigit hbegin).length_le
        · simp at h
  isSome := by
    intro word rest hword
    cases word with
    | nil => exact absurd rfl hword.ne_nil
    | cons c word =>
      rw [List.cons_append, whole?]
      split
      · rfl
      · rw [if_pos (hword.isDigit c List.mem_cons_self)]
        rfl

/-! ## The fraction -/

/-- Digits of which the last is not zero. -/
def IsSignificant (digits : List Char) : Prop :=
  (∀ d ∈ digits, d.isDigit = true) ∧ ∃ last, digits.getLast? = some last ∧ last ≠ '0'

/-- Significant digits are a fraction. -/
theorem IsSignificant.isFraction {digits : List Char} (h : IsSignificant digits) :
    IsFraction digits := by
  obtain ⟨hdigit, last, hlast, hne⟩ := h
  refine ⟨?_, hdigit, fun hzero => ?_⟩
  · rintro rfl
    simp at hlast
  · rw [hlast, Option.some.injEq] at hzero
    exact absurd hzero hne

/-- A fraction is a zero alone or significant. -/
theorem IsFraction.eq_zero_or_isSignificant {digits : List Char} (h : IsFraction digits) :
    digits = ['0'] ∨ IsSignificant digits := by
  by_cases hlast : digits.getLast? = some '0'
  · exact Or.inl (h.eq_zero hlast)
  · refine Or.inr ⟨h.isDigit, digits.getLast h.ne_nil, List.getLast?_eq_some_getLast h.ne_nil, ?_⟩
    intro heq
    rw [List.getLast?_eq_some_getLast h.ne_nil, heq] at hlast
    exact hlast rfl

/-- A digit before significant digits makes significant digits; alone it does if it is not
zero. -/
theorem isSignificant_cons_iff {c : Char} {digits : List Char} :
    IsSignificant (c :: digits) ↔
      c.isDigit = true ∧ (digits = [] ∧ c ≠ '0' ∨ IsSignificant digits) := by
  cases digits with
  | nil => simp [IsSignificant]
  | cons d digits => simp [IsSignificant, and_assoc]

/-- The digits up to the last one other than zero are significant, if there are any. -/
theorem isSignificant_significant {text : List Char} (h : (significant text).1 ≠ []) :
    IsSignificant (significant text).1 := by
  fun_induction significant text with
  | case1 => exact absurd rfl h
  | case2 => exact absurd rfl h
  | case3 c text hdigit _ hnone hc _ =>
    exact isSignificant_cons_iff.2 ⟨hdigit, Or.inl ⟨rfl, hc⟩⟩
  | case4 c text hdigit taken rest htaken hsome ih =>
    rw [hsome] at ih
    exact isSignificant_cons_iff.2 ⟨hdigit, Or.inr (ih htaken)⟩
  | case5 => exact absurd rfl h

/-- No significant digits at the start of a text reach further than those cut off. -/
theorem length_le_significant {text digits : List Char} (hdigits : IsSignificant digits)
    (hbegin : digits <+: text) : digits.length ≤ (significant text).1.length := by
  induction text generalizing digits with
  | nil =>
    rw [List.prefix_nil] at hbegin
    simp [hbegin]
  | cons c text ih =>
    cases digits with
    | nil => simp
    | cons d digits =>
      obtain ⟨rfl, htail⟩ := List.cons_prefix_cons.1 hbegin
      obtain ⟨hdigit, hrest⟩ := isSignificant_cons_iff.1 hdigits
      rw [significant, if_pos hdigit]
      -- the tail of the digits is empty or significant again, and then the same cut takes it
      rcases hrest with ⟨rfl, hd⟩ | hsignificant
      · split
        · rw [if_neg hd]
        · simp
      · have hle := ih hsignificant htail
        have hpos : digits ≠ [] := hsignificant.isFraction.ne_nil
        split
        · next hnone =>
          rw [hnone, List.length_nil, Nat.le_zero, List.length_eq_zero_iff] at hle
          exact absurd hle hpos
        · next _ hsome =>
          rw [hsome] at hle
          exact Nat.succ_le_succ hle

/-- The fraction at the start of a text is cut off at full length. -/
theorem cutsLongest_fraction? : CutsLongest fraction? IsFraction where
  append_eq := append_of_fraction?
  isLongest := by
    intro text taken rest h
    have happend := append_of_fraction? h
    unfold fraction? at h
    split at h
    · -- no digit but zeros: one zero is cut off
      next tail hnone =>
      simp only [Option.some.injEq, Prod.mk.injEq] at h
      rw [← h.1]
      refine ⟨isFraction_zero, ⟨rest, by rw [h.1, happend]⟩, ?_⟩
      intro other hother hbegin
      rcases hother.eq_zero_or_isSignificant with rfl | hsignificant
      · exact le_rfl
      · have hle := length_le_significant hsignificant hbegin
        rw [hnone] at hle
        simp at hle
        simp [hle]
    · simp at h
    · next first tail _ hne hsome =>
      simp only [Option.some.injEq, Prod.mk.injEq] at h
      have hfirst : (significant text).1 = taken := by
        rw [hsome]
        exact h.1
      have hsignificant : IsSignificant taken := by
        rw [← hfirst]
        refine isSignificant_significant ?_
        rw [hsome]
        exact hne
      refine ⟨hsignificant.isFraction, ⟨rest, happend⟩, ?_⟩
      intro other hother hbegin
      rcases hother.eq_zero_or_isSignificant with rfl | hother
      · exact List.length_pos_iff.2 hsignificant.isFraction.ne_nil
      · rw [← hfirst]
        exact length_le_significant hother hbegin
  isSome := by
    intro word rest hword
    have happend := significant_append (word ++ rest)
    unfold fraction?
    split
    · rfl
    · next first tail hzero hnone =>
      -- nothing significant: the word is a single zero, which the other branch has taken
      rw [hnone, List.nil_append] at happend
      rcases hword.eq_zero_or_isSignificant with rfl | hsignificant
      · exact absurd happend (hzero _)
      · have hle := length_le_significant hsignificant (List.prefix_append word rest)
        rw [hnone, List.length_nil, Nat.le_zero, List.length_eq_zero_iff] at hle
        exact absurd hle hsignificant.isFraction.ne_nil
    · rfl

end Numeral

end MiniPascal
