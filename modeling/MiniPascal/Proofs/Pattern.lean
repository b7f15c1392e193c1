import MiniPascal.Proofs.Language

/-!
# The patterns of the rules

Each rule has a pattern, which is tried on a text by going back: of two alternatives the first one
is preferred, a repetition prefers to take more, and the next choice is made only where what comes
behind does not match. Main statements: the preferred match of the pattern of a rule is what the
rule cuts off (`Rule.head?_cuts_pattern`), and the texts that this pattern matches as a whole are
those in the language of the rule (`Rule.matches_pattern_iff`).
-/

namespace MiniPascal

open Text

/-! ## Patterns -/

/-- A pattern: a fixed word, one character of a class, any number of them, one pattern behind
another, or one of two patterns. -/
inductive Pattern where
  | word (text : List Char)
  | one (p : Char → Bool)
  | many (p : Char → Bool)
  | seq (first second : Pattern)
  | alt (first second : Pattern)

namespace Pattern

/-- The ways to cut off characters of a class, those that take more first. -/
def runs (p : Char → Bool) : List Char → List (List Char × List Char)
  | [] => [([], [])]
  | c :: text =>
    if p c then (runs p text).map (Prod.map (c :: ·) id) ++ [([], c :: text)]
    else [([], c :: text)]

/-- The ways in which a pattern can cut a text after a beginning that it matches, the preferred ones
first. -/
def cuts : Pattern → List Char → List (List Char × List Char)
  | .word fixed, text => (word? fixed text).toList
  | .one _, [] => []
  | .one p, c :: text => if p c then [([c], text)] else []
  | .many p, text => runs p text
  | .seq first second, text =>
    (first.cuts text).flatMap fun cut => (second.cuts cut.2).map (Prod.map (cut.1 ++ ·) id)
  | .alt first second, text => first.cuts text ++ second.cuts text

/-- The texts that a pattern matches as a whole, whatever it would prefer. -/
def Matches : Pattern → List Char → Prop
  | .word fixed, text => text = fixed
  | .one p, text => ∃ c, p c = true ∧ text = [c]
  | .many p, text => ∀ c ∈ text, p c = true
  | .seq first second, text =>
    ∃ left right, first.Matches left ∧ second.Matches right ∧ left ++ right = text
  | .alt first second, text => first.Matches text ∨ second.Matches text

/-- One or more characters of a class. -/
def oneOrMore (p : Char → Bool) : Pattern :=
  .seq (.one p) (.many p)

end Pattern

namespace Rule

/-- Digits other than zero. -/
def isSignificantDigit (c : Char) : Bool :=
  c.isDigit && c != '0'

/-- The pattern of the whole part of a numeral. -/
def wholePattern : Pattern :=
  .alt (.seq (.one isSignificantDigit) (.many Char.isDigit)) (.word ['0'])

/-- The pattern of the fraction of a numeral. -/
def fractionPattern : Pattern :=
  .alt (.seq (.many Char.isDigit) (.one isSignificantDigit)) (.word ['0'])

/-- The pattern of a rule. -/
def pattern : Rule → Pattern
  | .whitespace => .oneOrMore isBlank
  | .newline => .oneOrMore (· == '\n')
  | .comment => .seq (.word ['/', '/']) (.many (· != '\n'))
  | .real => .seq (.word ['#']) (.seq wholePattern (.seq (.word ['.']) fractionPattern))
  | .integer => .seq (.word ['#']) wholePattern
  | .char =>
    .alt (.seq (.word ['\\']) (.one (· != '\n')))
      (.seq (.word ['\'']) (.seq (.one (· != '\n')) (.word ['\''])))
  | .boolean => .alt (.word ['t', 'r', 'u', 'e']) (.word ['f', 'a', 'l', 's', 'e'])
  | .identifier => .oneOrMore Char.isAlpha
  | .operator op => .word op.spelling

end Rule

/-! ## All matches -/

namespace Pattern

variable {p : Char → Bool} {text : List Char}

/-- The ways to cut off characters of a class are those that leave the rest of the text. -/
theorem mem_runs_iff {taken rest : List Char} :
    (taken, rest) ∈ runs p text ↔ (∀ c ∈ taken, p c = true) ∧ taken ++ rest = text := by
  induction text generalizing taken with
  | nil =>
    rw [runs, List.mem_singleton, Prod.mk.injEq, List.append_eq_nil_iff]
    constructor
    · rintro ⟨rfl, rfl⟩
      exact ⟨by simp, rfl, rfl⟩
    · exact And.right
  | cons c text ih =>
    rw [runs]
    cases taken with
    | nil => by_cases hc : p c = true <;> simp [hc]
    | cons d taken =>
      rw [List.forall_mem_cons, List.cons_append, List.cons.injEq]
      by_cases hc : p c = true
      · simp only [hc, if_true, List.mem_append, List.mem_map, List.mem_singleton, Prod.map,
          Prod.mk.injEq, Prod.exists, id_eq, List.cons.injEq, reduceCtorEq, false_and, or_false]
        constructor
        · rintro ⟨left, right, hmem, ⟨rfl, rfl⟩, rfl⟩
          obtain ⟨hleft, happend⟩ := ih.1 hmem
          exact ⟨⟨hc, hleft⟩, rfl, happend⟩
        · rintro ⟨⟨-, htaken⟩, rfl, happend⟩
          exact ⟨taken, rest, ih.2 ⟨htaken, happend⟩, ⟨rfl, rfl⟩, rfl⟩
      · rw [if_neg hc, List.mem_singleton]
        constructor
        · intro h
          cases h
        · rintro ⟨⟨hd, -⟩, rfl, -⟩
          exact absurd hd hc

/-- **The cuts of a text are exactly its beginnings that the pattern matches.** Only their order
depends on what the pattern prefers. -/
theorem mem_cuts_iff {pattern : Pattern} {taken rest : List Char} :
    (taken, rest) ∈ pattern.cuts text ↔ pattern.Matches taken ∧ taken ++ rest = text := by
  induction pattern generalizing text taken rest with
  | word fixed =>
    rw [cuts, Option.mem_toList, (cutsLongest_word? fixed).eq_some_iff, Matches]
    constructor
    · rintro ⟨hlongest, happend⟩
      exact ⟨hlongest.mem, happend⟩
    · rintro ⟨rfl, happend⟩
      exact ⟨⟨rfl, ⟨rest, happend⟩, fun hother _ => hother ▸ le_rfl⟩, happend⟩
  | one p =>
    rw [Matches]
    cases text with
    | nil =>
      constructor
      · intro h
        cases h
      · rintro ⟨⟨c, -, rfl⟩, happend⟩
        cases happend
    | cons c text =>
      rw [cuts]
      by_cases hc : p c = true
      · rw [if_pos hc, List.mem_singleton, Prod.mk.injEq]
        constructor
        · rintro ⟨rfl, rfl⟩
          exact ⟨⟨c, hc, rfl⟩, rfl⟩
        · rintro ⟨⟨d, -, rfl⟩, happend⟩
          cases happend
          exact ⟨rfl, rfl⟩
      · rw [if_neg hc]
        constructor
        · intro h
          cases h
        · rintro ⟨⟨d, hd, rfl⟩, happend⟩
          cases happend
          exact absurd hd hc
  | many p => exact mem_runs_iff
  | seq first second ihfirst ihsecond =>
    simp only [cuts, List.mem_flatMap, List.mem_map, Prod.exists, Prod.map, Prod.mk.injEq, id_eq,
      Matches]
    constructor
    · rintro ⟨left, tail, hleft, right, last, hright, rfl, rfl⟩
      obtain ⟨hfirst, rfl⟩ := ihfirst.1 hleft
      obtain ⟨hsecond, rfl⟩ := ihsecond.1 hright
      exact ⟨⟨left, right, hfirst, hsecond, rfl⟩, List.append_assoc left right last⟩
    · rintro ⟨⟨left, right, hfirst, hsecond, rfl⟩, rfl⟩
      refine ⟨left, right ++ rest, ihfirst.2 ⟨hfirst, ?_⟩, right, rest, ihsecond.2 ⟨hsecond, rfl⟩,
        rfl, rfl⟩
      exact (List.append_assoc left right rest).symm
  | alt first second ihfirst ihsecond =>
    rw [cuts, List.mem_append, ihfirst, ihsecond, Matches, or_and_right]

/-- One or more characters of a class are a text that is not empty. -/
theorem matches_oneOrMore_iff :
    (oneOrMore p).Matches text ↔ text ≠ [] ∧ ∀ c ∈ text, p c = true := by
  simp only [oneOrMore, Matches]
  constructor
  · rintro ⟨_, right, ⟨c, hc, rfl⟩, hright, rfl⟩
    refine ⟨List.cons_ne_nil c right, ?_⟩
    exact List.forall_mem_cons.2 ⟨hc, hright⟩
  · rintro ⟨hne, htext⟩
    obtain ⟨c, tail, rfl⟩ := List.exists_cons_of_ne_nil hne
    obtain ⟨hc, htail⟩ := List.forall_mem_cons.1 htext
    exact ⟨[c], tail, ⟨c, hc, rfl⟩, htail, rfl⟩

/-- A word and what a pattern matches behind it. -/
theorem matches_seq_word_iff {fixed : List Char} {second : Pattern} :
    (Pattern.seq (.word fixed) second).Matches text ↔
      ∃ right, second.Matches right ∧ text = fixed ++ right := by
  simp only [Matches]
  constructor
  · rintro ⟨left, right, rfl, hright, rfl⟩
    exact ⟨right, hright, rfl⟩
  · rintro ⟨right, hright, rfl⟩
    exact ⟨fixed, right, rfl, hright, rfl⟩

end Pattern

namespace Rule

open Numeral Pattern

/-- A significant digit is a digit, and not zero. -/
theorem isSignificantDigit_iff {c : Char} :
    isSignificantDigit c = true ↔ c.isDigit = true ∧ c ≠ '0' := by
  simp [isSignificantDigit]

/-- The pattern of whole parts matches digits without leading zeros. -/
theorem matches_wholePattern_iff {text : List Char} :
    wholePattern.Matches text ↔ IsWhole text := by
  simp only [wholePattern, Matches]
  constructor
  · rintro (⟨_, right, ⟨c, hc, rfl⟩, hright, rfl⟩ | rfl)
    · obtain ⟨hdigit, hzero⟩ := isSignificantDigit_iff.1 hc
      exact isWhole_cons hzero (List.forall_mem_cons.2 ⟨hdigit, hright⟩)
    · exact isWhole_zero
  · intro h
    obtain ⟨c, right, rfl⟩ := List.exists_cons_of_ne_nil h.ne_nil
    obtain ⟨hdigit, hright⟩ := List.forall_mem_cons.1 h.isDigit
    by_cases hzero : c = '0'
    · exact Or.inr (h.eq_zero (congrArg some hzero))
    · exact Or.inl ⟨[c], right, ⟨c, isSignificantDigit_iff.2 ⟨hdigit, hzero⟩, rfl⟩, hright, rfl⟩

/-- The pattern of fractions matches digits without trailing zeros. -/
theorem matches_fractionPattern_iff {text : List Char} :
    fractionPattern.Matches text ↔ IsFraction text := by
  simp only [fractionPattern, Matches]
  constructor
  · rintro (⟨left, _, hleft, ⟨c, hc, rfl⟩, rfl⟩ | rfl)
    · obtain ⟨hdigit, hzero⟩ := isSignificantDigit_iff.1 hc
      refine IsSignificant.isFraction ⟨?_, c, List.getLast?_concat, hzero⟩
      refine List.forall_mem_append.2 ⟨hleft, ?_⟩
      exact List.forall_mem_singleton.2 hdigit
    · exact isFraction_zero
  · intro h
    rcases h.eq_zero_or_isSignificant with rfl | ⟨hdigits, c, hlast, hzero⟩
    · exact Or.inr rfl
    · obtain ⟨left, rfl⟩ := List.getLast?_eq_some_iff.1 hlast
      obtain ⟨hleft, hright⟩ := List.forall_mem_append.1 hdigits
      have hc := isSignificantDigit_iff.2 ⟨hright c List.mem_cons_self, hzero⟩
      exact Or.inl ⟨left, [c], hleft, ⟨c, hc, rfl⟩, rfl⟩

/-- **The pattern of a rule matches exactly the texts in the language of the rule.** -/
theorem matches_pattern_iff {rule : Rule} {text : List Char} :
    rule.pattern.Matches text ↔ rule.Spells text := by
  cases rule with
  | whitespace => exact matches_oneOrMore_iff
  | newline => exact matches_oneOrMore_iff
  | identifier => exact matches_oneOrMore_iff
  | boolean => exact Iff.rfl
  | operator op => exact Iff.rfl
  | comment =>
    rw [pattern, matches_seq_word_iff, Spells]
    refine exists_congr fun body => ?_
    rw [and_comm, Matches]
    refine and_congr Iff.rfl ⟨fun h hmem => ?_, fun h c hc => ?_⟩
    · exact absurd (h '\n' hmem) (by decide)
    · rw [bne_iff_ne]
      rintro rfl
      exact h hc
  | integer =>
    rw [pattern, matches_seq_word_iff, Spells]
    refine exists_congr fun whole => ?_
    rw [matches_wholePattern_iff]
    exact and_comm
  | real =>
    rw [pattern, matches_seq_word_iff, Spells]
    constructor
    · rintro ⟨_, ⟨whole, _, hwhole, htail, rfl⟩, rfl⟩
      obtain ⟨fraction, hfraction, rfl⟩ := matches_seq_word_iff.1 htail
      exact ⟨whole, fraction, rfl, matches_wholePattern_iff.1 hwhole,
        matches_fractionPattern_iff.1 hfraction⟩
    · rintro ⟨whole, fraction, rfl, hwhole, hfraction⟩
      refine ⟨_, ⟨whole, '.' :: fraction, matches_wholePattern_iff.2 hwhole, ?_, rfl⟩, rfl⟩
      exact matches_seq_word_iff.2 ⟨fraction, matches_fractionPattern_iff.2 hfraction, rfl⟩
  | char =>
    rw [pattern, Matches, matches_seq_word_iff, matches_seq_word_iff, Spells]
    constructor
    · rintro (⟨_, ⟨c, hc, rfl⟩, rfl⟩ | ⟨_, ⟨_, _, ⟨c, hc, rfl⟩, rfl, rfl⟩, rfl⟩)
      · exact ⟨c, bne_iff_ne.1 hc, Or.inl rfl⟩
      · exact ⟨c, bne_iff_ne.1 hc, Or.inr rfl⟩
    · rintro ⟨c, hc, rfl | rfl⟩
      · exact Or.inl ⟨[c], ⟨c, bne_iff_ne.2 hc, rfl⟩, rfl⟩
      · exact Or.inr ⟨_, ⟨[c], ['\''], ⟨c, bne_iff_ne.2 hc, rfl⟩, rfl, rfl⟩, rfl⟩

end Rule

/-! ## Preferred matches -/

namespace Pattern

variable {p : Char → Bool} {text : List Char}

/-- A word has at most one match. -/
theorem head?_cuts_word (fixed text : List Char) :
    ((Pattern.word fixed).cuts text).head? = word? fixed text := by
  rw [cuts]
  cases word? fixed text <;> rfl

/-- The first of two alternatives is preferred. -/
theorem head?_cuts_alt (first second : Pattern) (text : List Char) :
    ((Pattern.alt first second).cuts text).head? =
      ((first.cuts text).head?).or (second.cuts text).head? := by
  rw [cuts, List.head?_append]

/-- What a pattern prefers to take behind a cut, joined to what the cut has taken. -/
def extend? (second : Pattern) (cut : List Char × List Char) : Option (List Char × List Char) :=
  ((second.cuts cut.2).head?).map (Prod.map (cut.1 ++ ·) id)

/-- A character before what a cut has taken stands before what it is joined to. -/
theorem extend?_cons (second : Pattern) (c : Char) (cut : List Char × List Char) :
    second.extend? (Prod.map (c :: ·) id cut) =
      (second.extend? cut).map (Prod.map (c :: ·) id) := by
  unfold extend?
  rw [Option.map_map]
  rfl

/-- The matches of a first pattern are tried in order until one can be extended. -/
theorem head?_cuts_seq (first second : Pattern) (text : List Char) :
    ((Pattern.seq first second).cuts text).head? = (first.cuts text).findSome? second.extend? := by
  rw [cuts, List.head?_flatMap]
  congr 1
  funext cut
  rw [List.head?_map, extend?]

/-- Behind a word comes what a pattern prefers to take there. -/
theorem head?_cuts_seq_word (fixed : List Char) (second : Pattern) (text : List Char) :
    ((Pattern.seq (.word fixed) second).cuts text).head? =
      (after? fixed text).bind fun rest => second.extend? (fixed, rest) := by
  rw [head?_cuts_seq, cuts, word?]
  cases after? fixed text with
  | none => rfl
  | some rest => simp

/-- A function that cuts a word and then what a pattern prefers behind it, and nothing where the
word does not stand, agrees with the pattern of both. -/
theorem head?_cuts_seq_word_eq {fixed : List Char} {second : Pattern}
    {cut? : List Char → Option (List Char × List Char)}
    (hsome : ∀ rest, second.extend? (fixed, rest) = cut? (fixed ++ rest))
    (hnone : ∀ text, after? fixed text = none → cut? text = none) (text : List Char) :
    ((Pattern.seq (.word fixed) second).cuts text).head? = cut? text := by
  rw [head?_cuts_seq_word]
  cases hafter : after? fixed text with
  | none => exact (hnone text hafter).symm
  | some rest =>
    rw [Option.bind_some, hsome rest, after?_eq_some_iff.1 hafter]

/-- A repetition prefers to take all characters of its class. -/
theorem head?_runs (p : Char → Bool) (text : List Char) :
    (runs p text).head? = some (text.takeWhile p, text.dropWhile p) := by
  induction text with
  | nil => rfl
  | cons c text ih =>
    rw [runs]
    by_cases hc : p c = true
    · rw [if_pos hc, List.head?_append, List.head?_map, ih, List.takeWhile_cons_of_pos hc,
        List.dropWhile_cons_of_pos hc]
      rfl
    · rw [if_neg hc, List.takeWhile_cons_of_neg hc, List.dropWhile_cons_of_neg hc]
      rfl

/-- One or more characters of a class are cut off as a run. -/
theorem head?_cuts_oneOrMore (p : Char → Bool) (text : List Char) :
    ((oneOrMore p).cuts text).head? = run? p text := by
  rw [oneOrMore, head?_cuts_seq]
  cases text with
  | nil => rfl
  | cons c text =>
    rw [cuts, run?]
    by_cases hc : p c = true
    · rw [if_pos hc, List.takeWhile_cons_of_pos hc, List.dropWhile_cons_of_pos hc,
        List.findSome?_singleton, extend?, cuts, head?_runs]
      rfl
    · rw [if_neg hc, List.takeWhile_cons_of_neg hc]
      rfl

/-- If nothing comes behind a repetition that could start with a character of its class, only taking
all of them can succeed. -/
theorem findSome?_runs {α : Type} {f : List Char × List Char → Option α}
    (hf : ∀ taken c rest, p c = true → f (taken, c :: rest) = none) (text : List Char) :
    (runs p text).findSome? f = f (text.takeWhile p, text.dropWhile p) := by
  induction text generalizing f with
  | nil =>
    rw [runs, List.findSome?_singleton]
    rfl
  | cons c text ih =>
    rw [runs]
    by_cases hc : p c = true
    · rw [if_pos hc, List.findSome?_append, List.findSome?_map, List.takeWhile_cons_of_pos hc,
        List.dropWhile_cons_of_pos hc]
      have hrest := ih (f := f ∘ Prod.map (c :: ·) id)
        fun taken d rest hd => hf (c :: taken) d rest hd
      rw [hrest, List.findSome?_singleton, hf [] c text hc, Option.or_none]
      rfl
    · rw [if_neg hc, List.findSome?_singleton, List.takeWhile_cons_of_neg hc,
        List.dropWhile_cons_of_neg hc]

end Pattern

/-! ## Numerals -/

namespace Rule

open Pattern Numeral

/-- The pattern of whole parts prefers to take a zero alone, or all digits. -/
theorem head?_cuts_wholePattern (text : List Char) :
    (wholePattern.cuts text).head? = whole? text := by
  rw [wholePattern, head?_cuts_alt, head?_cuts_word, head?_cuts_seq]
  cases text with
  | nil => rfl
  | cons c text =>
    rw [cuts, whole?, word?, after?]
    by_cases hzero : c = '0'
    · rw [if_neg (by simp [isSignificantDigit, hzero]), if_pos hzero, if_pos hzero.symm]
      rfl
    · rw [if_neg hzero, if_neg (Ne.symm hzero)]
      by_cases hc : c.isDigit = true
      · rw [if_pos (isSignificantDigit_iff.2 ⟨hc, hzero⟩), if_pos hc, List.findSome?_singleton,
          extend?, cuts, head?_runs]
        rfl
      · rw [if_neg (fun h => hc (isSignificantDigit_iff.1 h).1), if_neg hc]
        rfl

/-- If nothing that comes behind a whole part can start with a digit, a shorter whole part than the
preferred one is of no use. -/
theorem findSome?_cuts_wholePattern {second : Pattern}
    (hsecond : ∀ taken c rest, c.isDigit = true → second.extend? (taken, c :: rest) = none)
    (text : List Char) :
    (wholePattern.cuts text).findSome? second.extend? = (whole? text).bind second.extend? := by
  rw [wholePattern, cuts, cuts, cuts]
  cases text with
  | nil => rfl
  | cons c text =>
    rw [cuts, whole?, word?, after?]
    by_cases hzero : c = '0'
    · rw [if_neg (by simp [isSignificantDigit, hzero]), if_pos hzero, if_pos hzero.symm]
      simp [after?]
    · rw [if_neg hzero, if_neg (Ne.symm hzero)]
      by_cases hc : c.isDigit = true
      · have hcons : second.extend? ∘ Prod.map ([c] ++ ·) id =
            Option.map (Prod.map (c :: ·) id) ∘ second.extend? := by
          funext cut
          exact second.extend?_cons c cut
        rw [if_pos (isSignificantDigit_iff.2 ⟨hc, hzero⟩), if_pos hc, List.flatMap_singleton, cuts,
          Option.map_none, Option.toList_none, List.append_nil, List.findSome?_map, hcons,
          ← List.map_findSome?, findSome?_runs hsecond, ← extend?_cons]
        rfl
      · rw [if_neg (fun h => hc (isSignificantDigit_iff.1 h).1), if_neg hc]
        rfl

/-- Going back over digits to one that is not zero finds the last such digit. -/
theorem findSome?_runs_significant (text : List Char) :
    (runs Char.isDigit text).findSome? (Pattern.one isSignificantDigit).extend? =
      if (significant text).1 = [] then none else some (significant text) := by
  induction text with
  | nil => rfl
  | cons c text ih =>
    rw [runs, significant]
    by_cases hc : c.isDigit = true
    · have hcons : (Pattern.one isSignificantDigit).extend? ∘ Prod.map (c :: ·) id =
          Option.map (Prod.map (c :: ·) id) ∘ (Pattern.one isSignificantDigit).extend? := by
        funext cut
        exact extend?_cons _ c cut
      rw [if_pos hc, if_pos hc, List.findSome?_append, List.findSome?_map,
        List.findSome?_singleton, hcons, ← List.map_findSome?, ih]
      -- the digit itself is taken as the last one if no significant digit follows it
      cases hsignificant : significant text with
      | mk taken rest =>
        cases taken with
        | nil =>
          by_cases hzero : c = '0'
          · simp [extend?, cuts, isSignificantDigit, hzero]
          · simp [extend?, cuts, isSignificantDigit, hc, hzero]
        | cons d taken => simp
    · rw [if_neg hc, if_neg hc, List.findSome?_singleton]
      simp [extend?, cuts, isSignificantDigit, hc]

/-- The pattern of fractions prefers to end with the last digit that is not zero, or to take a zero
alone. -/
theorem head?_cuts_fractionPattern (text : List Char) :
    (fractionPattern.cuts text).head? = fraction? text := by
  have happend := significant_append text
  rw [fractionPattern, head?_cuts_alt, head?_cuts_word, head?_cuts_seq, cuts,
    findSome?_runs_significant, fraction?]
  cases hsignificant : significant text with
  | mk taken rest =>
    rw [hsignificant] at happend
    cases taken with
    | nil =>
      obtain rfl : rest = text := happend
      cases rest with
      | nil => rfl
      | cons c rest =>
        by_cases hzero : c = '0'
        · simp [word?, after?, hzero]
        · simp [word?, after?, hzero, Ne.symm hzero]
    | cons d taken => simp

/-! ## One rule after the other -/

/-- Behind two slashes a comment prefers to take the rest of the line. -/
theorem head?_cuts_comment (text : List Char) :
    ((pattern .comment).cuts text).head? = cutComment? text := by
  apply head?_cuts_seq_word_eq
  · intro rest
    rw [extend?, cuts, head?_runs]
    rfl
  · intro text hafter
    unfold cutComment?
    split
    · simp [after?] at hafter
    · rfl

/-- Behind a sharp sign an integer prefers to take all digits. -/
theorem head?_cuts_integer (text : List Char) :
    ((pattern .integer).cuts text).head? = cutInteger? text := by
  apply head?_cuts_seq_word_eq
  · intro rest
    rw [extend?, head?_cuts_wholePattern]
    rfl
  · intro text hafter
    unfold cutInteger?
    split
    · simp [after?] at hafter
    · rfl

/-- Only a point can follow the whole part of a real, and no digit. -/
theorem extend?_point_eq_none (second : Pattern) (taken : List Char) {c : Char} (rest : List Char)
    (hc : c.isDigit = true) :
    (Pattern.seq (.word ['.']) second).extend? (taken, c :: rest) = none := by
  have hne : '.' ≠ c := by
    rintro rfl
    exact absurd hc (by decide)
  rw [extend?, head?_cuts_seq_word, after?, if_neg hne]
  rfl

/-- A real prefers to take the digits up to its point, and of the others as many as end with one
that is not zero. -/
theorem head?_cuts_real (text : List Char) :
    ((pattern .real).cuts text).head? = cutReal? text := by
  apply head?_cuts_seq_word_eq
  · intro rest
    -- all digits of the whole part have to be taken
    rw [extend?, head?_cuts_seq, findSome?_cuts_wholePattern
      fun taken c rest hc => extend?_point_eq_none _ taken rest hc]
    show _ = cutReal? ('#' :: rest)
    rw [cutReal?]
    cases whole? rest with
    | none => rfl
    | some cut =>
      obtain ⟨whole, tail⟩ := cut
      rw [Option.bind_some, extend?, head?_cuts_seq_word]
      cases hafter : after? ['.'] tail with
      | none =>
        split
        · next heq =>
          cases heq
          simp [after?] at hafter
        · rfl
      | some rest =>
        obtain rfl := after?_eq_some_iff.1 hafter
        rw [Option.bind_some, extend?, head?_cuts_fractionPattern]
        show _ = (fraction? rest).map _
        rw [Option.map_map, Option.map_map]
        rfl
  · intro text hafter
    unfold cutReal?
    split
    · simp [after?] at hafter
    · rfl

/-- A character literal prefers its form with a backslash; no text can be cut in both forms. -/
theorem head?_cuts_char (text : List Char) :
    ((pattern .char).cuts text).head? = cutChar? text := by
  rw [pattern, head?_cuts_alt, head?_cuts_seq_word, head?_cuts_seq_word]
  cases text with
  | nil => rfl
  | cons d text =>
    by_cases hslash : d = '\\'
    · subst hslash
      cases text with
      | nil => rfl
      | cons c rest => by_cases hc : c = '\n' <;> simp [after?, extend?, cuts, cutChar?, hc]
    · by_cases hquote : d = '\''
      · subst hquote
        cases text with
        | nil => rfl
        | cons c text =>
          cases text with
          | nil => by_cases hc : c = '\n' <;> simp [after?, extend?, cuts, word?, cutChar?, hc]
          | cons e rest =>
            by_cases he : e = '\''
            · by_cases hc : c = '\n' <;> simp [after?, extend?, cuts, word?, cutChar?, hc, he]
            · by_cases hc : c = '\n' <;>
                simp [after?, extend?, cuts, word?, cutChar?, hc, he, Ne.symm he]
      · have hnone : cutChar? (d :: text) = none := by
          unfold cutChar?
          split
          · next heq => exact absurd (List.cons.inj heq).1 hslash
          · next heq => exact absurd (List.cons.inj heq).1 hquote
          · rfl
        simp [hnone, after?, Ne.symm hslash, Ne.symm hquote]

/-! ## All rules -/

/-- **The preferred match of the pattern of a rule is what the rule cuts off.** -/
theorem head?_cuts_pattern (rule : Rule) (text : List Char) :
    (rule.pattern.cuts text).head? = rule.cut? text := by
  cases rule with
  | whitespace => exact head?_cuts_oneOrMore isBlank text
  | newline => exact head?_cuts_oneOrMore (· == '\n') text
  | comment => exact head?_cuts_comment text
  | real => exact head?_cuts_real text
  | integer => exact head?_cuts_integer text
  | char => exact head?_cuts_char text
  | boolean => rw [pattern, head?_cuts_alt, head?_cuts_word, head?_cuts_word, cut?]
  | identifier => exact head?_cuts_oneOrMore Char.isAlpha text
  | operator op => exact head?_cuts_word op.spelling text

end Rule

end MiniPascal
