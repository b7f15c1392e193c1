import MiniPascal.Rule.Basic
import MiniPascal.Text.Blank
import MiniPascal.Text.Cut

/-!
# Lexemes

`Rule.cut?` cuts the lexeme of a rule off the front of a text. `Lexeme.first?` does so with the
first rule of a list that matches. Main statements: a cut loses nothing (`Rule.append_of_cut?`) and
takes at least one character (`Rule.ne_nil_of_cut?`), so what is left is shorter
(`Lexeme.rest_length_lt`).
-/

namespace MiniPascal

/-! ## Numerals -/

namespace Numeral

/-- Cuts off a number without leading zeros: a zero alone, or all digits of a run that starts with
another digit. -/
def whole? : List Char → Option (List Char × List Char)
  | [] => none
  | c :: text =>
    if c = '0' then some (['0'], text)
    else if c.isDigit then some (c :: text.takeWhile Char.isDigit, text.dropWhile Char.isDigit)
    else none

/-- Cuts a text after the last digit other than zero of the digits at its start. -/
def significant : List Char → List Char × List Char
  | [] => ([], [])
  | c :: text =>
    if c.isDigit then
      match significant text with
      | ([], _) => if c = '0' then ([], c :: text) else ([c], text)
      | (taken, rest) => (c :: taken, rest)
    else ([], c :: text)

/-- Cuts off a fraction without trailing zeros: the digits up to the last one other than zero, or
one zero when there is no other digit. -/
def fraction? (text : List Char) : Option (List Char × List Char) :=
  match significant text with
  | ([], '0' :: rest) => some (['0'], rest)
  | ([], _) => none
  | (taken, rest) => some (taken, rest)

/-- A number and its rest make up the text. -/
theorem append_of_whole? {text taken rest : List Char} (h : whole? text = some (taken, rest)) :
    taken ++ rest = text := by
  unfold whole? at h
  split at h
  · simp at h
  · split at h
    · next hc =>
      simp only [Option.some.injEq, Prod.mk.injEq] at h
      simp [← h.1, ← h.2, hc]
    · split at h
      · simp only [Option.some.injEq, Prod.mk.injEq] at h
        simp [← h.1, ← h.2]
      · simp at h

/-- The significant digits and their rest make up the text. -/
theorem significant_append (text : List Char) :
    (significant text).1 ++ (significant text).2 = text := by
  fun_induction significant text <;> simp_all

/-- A fraction and its rest make up the text. -/
theorem append_of_fraction? {text taken rest : List Char}
    (h : fraction? text = some (taken, rest)) : taken ++ rest = text := by
  have happend := significant_append text
  unfold fraction? at h
  split at h <;> simp_all
  · simp [← h.1, ← h.2, ← happend]

end Numeral

/-! ## Cutting by a rule -/

namespace Rule

/-- Cuts a whole number after its sharp sign. -/
def cutInteger? : List Char → Option (List Char × List Char)
  | '#' :: text => (Numeral.whole? text).map fun (whole, rest) => ('#' :: whole, rest)
  | _ => none

/-- Cuts a number with a fraction after its sharp sign. -/
def cutReal? : List Char → Option (List Char × List Char)
  | '#' :: text =>
    match Numeral.whole? text with
    | some (whole, '.' :: rest) =>
      (Numeral.fraction? rest).map fun (fraction, rest) => ('#' :: whole ++ '.' :: fraction, rest)
    | _ => none
  | _ => none

/-- Cuts a comment, which starts with two slashes and ends before the next newline. -/
def cutComment? : List Char → Option (List Char × List Char)
  | '/' :: '/' :: text =>
    some ('/' :: '/' :: text.takeWhile (· != '\n'), text.dropWhile (· != '\n'))
  | _ => none

/-- Cuts a character after a backslash or between apostrophes; a newline is no such character. -/
def cutChar? : List Char → Option (List Char × List Char)
  | '\\' :: c :: rest => if c = '\n' then none else some (['\\', c], rest)
  | '\'' :: c :: '\'' :: rest => if c = '\n' then none else some (['\'', c, '\''], rest)
  | _ => none

/-- Cuts the lexeme of a rule off the front of a text. -/
def cut? : Rule → List Char → Option (List Char × List Char)
  | .whitespace, text => Text.run? Text.isBlank text
  | .newline, text => Text.run? (· == '\n') text
  | .comment, text => cutComment? text
  | .real, text => cutReal? text
  | .integer, text => cutInteger? text
  | .char, text => cutChar? text
  | .boolean, text =>
    (Text.word? ['t', 'r', 'u', 'e'] text).or (Text.word? ['f', 'a', 'l', 's', 'e'] text)
  | .identifier, text => Text.run? Char.isAlpha text
  | .operator op, text => Text.word? op.spelling text

/-- A lexeme and its rest make up the text. -/
theorem append_of_cut? {rule : Rule} {text taken rest : List Char}
    (h : rule.cut? text = some (taken, rest)) : taken ++ rest = text := by
  cases rule with
  | whitespace => exact Text.append_of_run? h
  | newline => exact Text.append_of_run? h
  | identifier => exact Text.append_of_run? h
  | operator op => exact Text.append_of_word? h
  | boolean =>
    rcases Option.or_eq_some_iff.1 h with h | h
    · exact Text.append_of_word? h
    · exact Text.append_of_word? h.2
  | comment =>
    simp only [cut?, cutComment?] at h
    split at h
    · simp only [Option.some.injEq, Prod.mk.injEq] at h
      simp [← h.1, ← h.2]
    · simp at h
  | integer =>
    simp only [cut?, cutInteger?] at h
    split at h
    · obtain ⟨⟨whole, tail⟩, hwhole, hpair⟩ := Option.map_eq_some_iff.1 h
      cases hpair
      simp [← Numeral.append_of_whole? hwhole]
    · simp at h
  | real =>
    simp only [cut?, cutReal?] at h
    split at h
    · split at h
      · next whole tail hwhole =>
        obtain ⟨⟨fraction, tail⟩, hfraction, hpair⟩ := Option.map_eq_some_iff.1 h
        cases hpair
        simp [← Numeral.append_of_whole? hwhole, ← Numeral.append_of_fraction? hfraction]
      · simp at h
    · simp at h
  | char =>
    simp only [cut?, cutChar?] at h
    split at h
    · split at h
      · simp at h
      · simp only [Option.some.injEq, Prod.mk.injEq] at h
        simp [← h.1, ← h.2]
    · split at h
      · simp at h
      · simp only [Option.some.injEq, Prod.mk.injEq] at h
        simp [← h.1, ← h.2]
    · simp at h

/-- A lexeme is not empty. -/
theorem ne_nil_of_cut? {rule : Rule} {text taken rest : List Char}
    (h : rule.cut? text = some (taken, rest)) : taken ≠ [] := by
  cases rule with
  | whitespace => exact Text.ne_nil_of_run? h
  | newline => exact Text.ne_nil_of_run? h
  | identifier => exact Text.ne_nil_of_run? h
  | operator op =>
    obtain ⟨_, _, hpair⟩ := Option.map_eq_some_iff.1 h
    cases hpair
    cases op <;> simp [Operator.spelling]
  | boolean =>
    rcases Option.or_eq_some_iff.1 h with h | h
    · obtain ⟨_, _, hpair⟩ := Option.map_eq_some_iff.1 h
      cases hpair
      simp
    · obtain ⟨_, _, hpair⟩ := Option.map_eq_some_iff.1 h.2
      cases hpair
      simp
  | comment =>
    simp only [cut?, cutComment?] at h
    split at h <;> simp at h
    simp [← h.1]
  | integer =>
    simp only [cut?, cutInteger?] at h
    split at h
    · obtain ⟨⟨whole, tail⟩, _, hpair⟩ := Option.map_eq_some_iff.1 h
      cases hpair
      simp
    · simp at h
  | real =>
    simp only [cut?, cutReal?] at h
    split at h
    · split at h
      · obtain ⟨⟨fraction, tail⟩, _, hpair⟩ := Option.map_eq_some_iff.1 h
        cases hpair
        simp
      · simp at h
    · simp at h
  | char =>
    simp only [cut?, cutChar?] at h
    split at h <;> (try split at h) <;> simp at h <;> simp [← h.1]

end Rule

/-! ## The first lexeme of a text -/

/-- A lexeme at the start of a text: the rule that matched, the characters taken, and the rest. -/
structure Lexeme where
  rule : Rule
  text : List Char
  rest : List Char
  deriving DecidableEq

namespace Lexeme

/-- The lexeme of the first rule of a list that matches a text. -/
def first? (rules : List Rule) (text : List Char) : Option Lexeme :=
  rules.findSome? fun rule => (rule.cut? text).map fun (taken, rest) => ⟨rule, taken, rest⟩

/-- A first lexeme is what its rule cuts off. -/
theorem cut?_of_first? {rules : List Rule} {text : List Char} {lexeme : Lexeme}
    (h : first? rules text = some lexeme) :
    lexeme.rule.cut? text = some (lexeme.text, lexeme.rest) := by
  obtain ⟨rule, _, hrule⟩ := List.exists_of_findSome?_eq_some h
  obtain ⟨⟨taken, rest⟩, hcut, hlexeme⟩ := Option.map_eq_some_iff.1 hrule
  cases hlexeme
  exact hcut

/-- What follows a first lexeme is shorter than the text. -/
theorem rest_length_lt {rules : List Rule} {text : List Char} {lexeme : Lexeme}
    (h : first? rules text = some lexeme) : lexeme.rest.length < text.length := by
  have hcut := cut?_of_first? h
  have happend := Rule.append_of_cut? hcut
  have hpos := List.length_pos_iff.2 (Rule.ne_nil_of_cut? hcut)
  rw [← happend, List.length_append]
  omega

end Lexeme

end MiniPascal
