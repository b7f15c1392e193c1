import MiniPascal.Proofs.Numeral

/-!
# The languages of the rules

Every rule has a language, the texts that are a lexeme of it as a whole; it is said here without
cutting anything. Main statement: a rule cuts off the longest beginning of a text that lies in its
language, and none if no beginning does (`Rule.cutsLongest`).
-/

namespace MiniPascal

namespace Rule

open Text Numeral

/-- The texts that are a lexeme of a rule as a whole. -/
def Spells : Rule → List Char → Prop
  | .whitespace, text => text ≠ [] ∧ ∀ c ∈ text, isBlank c = true
  | .newline, text => text ≠ [] ∧ ∀ c ∈ text, (c == '\n') = true
  | .comment, text => ∃ body, text = '/' :: '/' :: body ∧ '\n' ∉ body
  | .real, text => ∃ whole fraction, text = '#' :: whole ++ '.' :: fraction ∧
      IsWhole whole ∧ IsFraction fraction
  | .integer, text => ∃ whole, text = '#' :: whole ∧ IsWhole whole
  | .char, text => ∃ c, c ≠ '\n' ∧ (text = ['\\', c] ∨ text = ['\'', c, '\''])
  | .boolean, text => text = ['t', 'r', 'u', 'e'] ∨ text = ['f', 'a', 'l', 's', 'e']
  | .identifier, text => text ≠ [] ∧ ∀ c ∈ text, c.isAlpha = true
  | .operator op, text => text = op.spelling

/-! ## One rule after the other -/

/-- A comment reaches up to the end of its line. -/
theorem cutsLongest_comment : CutsLongest (cut? .comment) (Spells .comment) where
  append_eq := append_of_cut?
  isLongest := by
    intro text taken rest h
    have happend := append_of_cut? h
    rw [cut?] at h
    unfold cutComment? at h
    split at h
    · next body =>
      simp only [Option.some.injEq, Prod.mk.injEq] at h
      refine ⟨⟨_, h.1.symm, ?_⟩, ⟨rest, happend⟩, ?_⟩
      · intro hmem
        have hne := List.mem_takeWhile_imp hmem
        simp at hne
      · rintro _ ⟨other, rfl, hother⟩ hbegin
        have hbody : other <+: body := by simpa using hbegin
        have hline : ∀ c ∈ other, (c != '\n') = true := by
          intro c hc
          rw [bne_iff_ne]
          rintro rfl
          exact hother hc
        have hle := (prefix_takeWhile hline hbody).length_le
        rw [← h.1]
        simpa using hle
    · simp at h
  isSome := by
    rintro _ rest ⟨body, rfl, _⟩
    rfl

/-- An integer is cut off with all its digits. -/
theorem cutsLongest_integer : CutsLongest (cut? .integer) (Spells .integer) where
  append_eq := append_of_cut?
  isLongest := by
    intro text taken rest h
    have happend := append_of_cut? h
    rw [cut?] at h
    unfold cutInteger? at h
    split at h
    · next text =>
      obtain ⟨⟨whole, tail⟩, hwhole, hpair⟩ := Option.map_eq_some_iff.1 h
      cases hpair
      have hlongest := cutsLongest_whole?.isLongest hwhole
      refine ⟨⟨whole, rfl, hlongest.mem⟩, ⟨rest, happend⟩, ?_⟩
      rintro _ ⟨other, rfl, hother⟩ hbegin
      have hle := hlongest.length_le hother (List.cons_prefix_cons.1 hbegin).2
      exact Nat.succ_le_succ hle
    · simp at h
  isSome := by
    rintro _ rest ⟨whole, rfl, hwhole⟩
    rw [List.cons_append, cut?, cutInteger?, Option.isSome_map]
    exact cutsLongest_whole?.isSome rest hwhole

/-- In front of a point a whole part is cut off as it stands. -/
theorem whole?_append_point {whole : List Char} (h : IsWhole whole) (rest : List Char) :
    whole? (whole ++ '.' :: rest) = some (whole, '.' :: rest) :=
  whole?_append h (by simp)

/-- A real is cut off with its whole part and the longest fraction. -/
theorem cutsLongest_real : CutsLongest (cut? .real) (Spells .real) where
  append_eq := append_of_cut?
  isLongest := by
    intro text taken rest h
    have happend := append_of_cut? h
    rw [cut?] at h
    unfold cutReal? at h
    split at h
    · next text =>
      split at h
      · next whole tail hwhole =>
        obtain ⟨⟨fraction, tail'⟩, hfraction, hpair⟩ := Option.map_eq_some_iff.1 h
        cases hpair
        have hpart := cutsLongest_whole?.isLongest hwhole
        have hlongest := cutsLongest_fraction?.isLongest hfraction
        refine ⟨⟨whole, fraction, rfl, hpart.mem, hlongest.mem⟩, ⟨rest, happend⟩, ?_⟩
        rintro _ ⟨other, otherFraction, rfl, hother, hotherFraction⟩ hbegin
        -- the other numeral has the same whole part, because a point follows it there too
        rw [List.cons_append] at hbegin
        obtain ⟨end_, hend⟩ := (List.cons_prefix_cons.1 hbegin).2
        rw [List.append_assoc, List.cons_append] at hend
        have hsame := whole?_append_point hother (otherFraction ++ end_)
        rw [hend, hwhole, Option.some.injEq, Prod.mk.injEq, List.cons.injEq] at hsame
        obtain ⟨rfl, -, rfl⟩ := hsame
        have hle := hlongest.length_le hotherFraction (List.prefix_append _ _)
        simpa using hle
      · simp at h
    · simp at h
  isSome := by
    rintro _ rest ⟨whole, fraction, rfl, hwhole, hfraction⟩
    rw [List.append_assoc, List.cons_append, List.cons_append, cut?, cutReal?,
      whole?_append_point hwhole]
    simp only [Option.isSome_map]
    exact cutsLongest_fraction?.isSome rest hfraction

/-- A character literal is cut off as one of its two forms. -/
theorem cutsLongest_char : CutsLongest (cut? .char) (Spells .char) where
  append_eq := append_of_cut?
  isLongest := by
    intro text taken rest h
    have happend := append_of_cut? h
    rw [cut?] at h
    unfold cutChar? at h
    split at h
    · next c tail =>
      split at h
      · simp at h
      · next hc =>
        simp only [Option.some.injEq, Prod.mk.injEq] at h
        obtain ⟨rfl, rfl⟩ := h
        refine ⟨⟨c, hc, Or.inl rfl⟩, ⟨tail, happend⟩, ?_⟩
        rintro _ ⟨d, _, rfl | rfl⟩ hbegin
        · exact le_rfl
        · simp at hbegin
    · next c tail =>
      split at h
      · simp at h
      · next hc =>
        simp only [Option.some.injEq, Prod.mk.injEq] at h
        obtain ⟨rfl, rfl⟩ := h
        refine ⟨⟨c, hc, Or.inr rfl⟩, ⟨tail, happend⟩, ?_⟩
        rintro _ ⟨d, _, rfl | rfl⟩ _
        · exact Nat.le_succ 2
        · exact le_rfl
    · simp at h
  isSome := by
    rintro _ rest ⟨c, hc, rfl | rfl⟩
    · simp [cut?, cutChar?, hc]
    · simp [cut?, cutChar?, hc]

/-- A boolean is cut off as one of its two words. -/
theorem cutsLongest_boolean : CutsLongest (cut? .boolean) (Spells .boolean) where
  append_eq := append_of_cut?
  isLongest := by
    intro text taken rest h
    have happend := append_of_cut? h
    rcases Option.or_eq_some_iff.1 h with h | ⟨-, h⟩
    · obtain rfl := ((cutsLongest_word? _).isLongest h).mem
      refine ⟨Or.inl rfl, ⟨rest, happend⟩, ?_⟩
      rintro _ (rfl | rfl) hbegin
      · exact le_rfl
      · rw [← happend] at hbegin
        simp at hbegin
    · obtain rfl := ((cutsLongest_word? _).isLongest h).mem
      refine ⟨Or.inr rfl, ⟨rest, happend⟩, ?_⟩
      rintro _ (rfl | rfl) _
      · exact Nat.le_succ 4
      · exact le_rfl
  isSome := by
    rintro _ rest (rfl | rfl)
    · rw [cut?, Option.isSome_or, (cutsLongest_word? _).isSome rest rfl, Bool.true_or]
    · rw [cut?, Option.isSome_or, (cutsLongest_word? _).isSome rest rfl, Bool.or_true]

/-! ## All rules -/

/-- Every rule cuts off the longest beginning of a text that lies in its language. -/
theorem cutsLongest (rule : Rule) : CutsLongest rule.cut? rule.Spells := by
  cases rule with
  | whitespace => exact cutsLongest_run? isBlank
  | newline => exact cutsLongest_run? (· == '\n')
  | comment => exact cutsLongest_comment
  | real => exact cutsLongest_real
  | integer => exact cutsLongest_integer
  | char => exact cutsLongest_char
  | boolean => exact cutsLongest_boolean
  | identifier => exact cutsLongest_run? Char.isAlpha
  | operator op => exact cutsLongest_word? op.spelling

end Rule

end MiniPascal
