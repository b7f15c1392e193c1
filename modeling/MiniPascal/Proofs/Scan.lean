import MiniPascal.Lexer.Scan
import MiniPascal.Proofs.Priority

/-!
# Scanning lexeme by lexeme

A scan goes over all lexemes, also over those that mean nothing. This module gives one equation for
each thing that can happen at a lexeme (`Scan.all_nil` to `Scan.all_of_content`), the induction
along a scan (`Scan.induction`), and the position behind a text
(`Point.past_eq`).
-/

namespace MiniPascal

/-! ## The position behind a text -/

/-- The position behind a text that starts at the given position. -/
def Position.after (position : Position) (text : List Char) : Position :=
  ⟨position.line + text.count '\n', position.offset + Text.byteLength text⟩

/-- The position behind the empty text is where it starts. -/
@[simp] theorem Position.after_nil (position : Position) : position.after [] = position := rfl

/-- The position behind two texts in a row. -/
theorem Position.after_append (position : Position) (left right : List Char) :
    position.after (left ++ right) = (position.after left).after right := by
  simp [after, Nat.add_assoc]

/-- Only the lexemes of the newline rule hold newlines, and nothing else. -/
theorem Rule.count_newline_of_spells {rule : Rule} {word : List Char} (h : rule.Spells word) :
    word.count '\n' = if rule = .newline then word.length else 0 := by
  cases rule with
  | newline =>
    rw [if_pos rfl, List.count_eq_length]
    intro c hc
    exact (beq_iff_eq.1 (h.2 c hc)).symm
  | whitespace =>
    rw [if_neg (by decide), List.count_eq_zero]
    intro hmem
    exact absurd (h.2 _ hmem) (by decide)
  | identifier =>
    rw [if_neg (by decide), List.count_eq_zero]
    intro hmem
    exact absurd (h.2 _ hmem) (by decide)
  | comment =>
    obtain ⟨body, rfl, hbody⟩ := h
    simp [List.count_eq_zero.2 hbody]
  | integer =>
    obtain ⟨whole, rfl, hwhole⟩ := h
    have hmem : '\n' ∉ whole := fun hmem => absurd (hwhole.isDigit _ hmem) (by decide)
    simp [List.count_eq_zero.2 hmem]
  | real =>
    obtain ⟨whole, fraction, rfl, hwhole, hfraction⟩ := h
    have hmem : '\n' ∉ whole := fun hmem => absurd (hwhole.isDigit _ hmem) (by decide)
    have hmem' : '\n' ∉ fraction := fun hmem => absurd (hfraction.isDigit _ hmem) (by decide)
    simp [List.count_eq_zero.2 hmem, List.count_eq_zero.2 hmem']
  | char =>
    obtain ⟨c, hc, rfl | rfl⟩ := h <;> simp [hc]
  | boolean =>
    rcases h with rfl | rfl <;> rfl
  | operator op =>
    rw [h]
    cases op <;> rfl

/-- The point right after a lexeme lies at the position behind its text. -/
theorem Point.past_eq {point : Point} {lexeme : Lexeme}
    (h : lexeme.rule.Spells lexeme.text) :
    point.past lexeme = ⟨lexeme.rest, point.position.after lexeme.text⟩ := by
  rw [past, Position.after, Rule.count_newline_of_spells h]

/-! ## Lexemes that make tokens -/

namespace Rule

open Numeral

/-- The rules whose lexemes make tokens. -/
def makesToken : Rule → Bool
  | .whitespace | .newline | .comment => false
  | _ => true

/-- The lexemes that make no token are those that mean nothing. -/
theorem read_eq_skipped_iff {rule : Rule} {word : List Char} :
    rule.read word = .skipped ↔ rule.makesToken = false := by
  cases rule with
  | integer =>
    rw [read, readInteger]
    split <;> simp [makesToken]
  | real =>
    rw [read, readRealBy]
    split <;> simp [makesToken]
  | identifier =>
    rw [read, readWord]
    split <;> simp [makesToken]
  | _ => simp [read, makesToken]

/-- A rule that reads a content makes a token of it. -/
theorem makesToken_of_read {rule : Rule} {word : List Char} {content : Content}
    (h : rule.read word = .content content) : rule.makesToken = true := by
  rw [← Bool.not_eq_false]
  intro hrule
  rw [read_eq_skipped_iff.2 hrule] at h
  cases h

/-- A real is read as the double nearest to the digits on both sides of its point. -/
theorem read_real {whole fraction : List Char} (hwhole : IsWhole whole)
    (hfraction : IsFraction fraction) :
    read .real ('#' :: whole ++ '.' :: fraction) =
      .content (.literal .realConst (.real (Binary64.ofDecimal whole fraction))) := by
  have hdrop : ('#' :: whole ++ '.' :: fraction).drop 1 = whole ++ '.' :: fraction := rfl
  rw [read, readRealBy, hdrop, Binary64.ofPointed?_append hwhole.ne_nil hfraction.ne_nil
    hwhole.isDigit hfraction.isDigit]

/-- Of lexemes that their rule describes, only integers are refused. -/
theorem eq_integer_of_refused {rule : Rule} {word : List Char} (hspells : rule.Spells word)
    (h : rule.read word = .refused) : rule = .integer := by
  cases rule with
  | integer => rfl
  | real =>
    obtain ⟨whole, fraction, rfl, hwhole, hfraction⟩ := hspells
    rw [read_real hwhole hfraction] at h
    cases h
  | identifier =>
    rw [read, readWord] at h
    split at h <;> cases h
  | _ => cases h

end Rule

/-! ## The lexemes of a text -/

namespace Lexeme

variable {rules : List Rule} {text : List Char}

/-- A first lexeme lies in the language of its rule. -/
theorem spells_of_first? {lexeme : Lexeme} (h : first? rules text = some lexeme) :
    lexeme.rule.Spells lexeme.text :=
  ((Rule.cutsLongest lexeme.rule).isLongest (cut?_of_first? h)).mem

/-- A first lexeme and what follows it make up the text. -/
theorem append_of_first? {lexeme : Lexeme} (h : first? rules text = some lexeme) :
    lexeme.text ++ lexeme.rest = text :=
  Rule.append_of_cut? (cut?_of_first? h)

/-- A lexeme that is refused starts with a sharp sign. -/
theorem eq_sharp_of_refused {c : Char} {lexeme : Lexeme}
    (h : first? rules (c :: text) = some lexeme)
    (hread : lexeme.rule.read lexeme.text = .refused) : c = '#' := by
  have hspells := spells_of_first? h
  have happend := append_of_first? h
  rw [Rule.eq_integer_of_refused hspells hread] at hspells
  obtain ⟨whole, htext, -⟩ := hspells
  rw [htext, List.cons_append, List.cons.injEq] at happend
  exact happend.1.symm

/-- The empty text has no first lexeme. -/
theorem first?_nil : first? rules [] = none := by
  cases h : first? rules [] with
  | none => rfl
  | some lexeme => exact absurd (rest_length_lt h) (Nat.not_lt_zero _)

/-- A text with a first lexeme has a first character. -/
theorem exists_eq_cons_of_first? {lexeme : Lexeme} (h : first? rules text = some lexeme) :
    ∃ c tail, text = c :: tail := by
  apply List.exists_cons_of_ne_nil
  rintro rfl
  rw [first?_nil] at h
  cases h

end Lexeme

/-! ## What a scan does at a lexeme -/

namespace Scan

/-- Induction along a scan: there is one case for each thing that can happen at a lexeme, and where
the scan goes on, what is to be shown holds behind the lexeme. -/
theorem induction (rules : List Rule) {motive : List Char → Prop}
    (nil : motive [])
    (noRule : ∀ c text, Lexeme.first? rules (c :: text) = none → motive (c :: text))
    (refused : ∀ c text lexeme, Lexeme.first? rules (c :: text) = some lexeme →
      lexeme.rule.read lexeme.text = .refused → motive (c :: text))
    (skipped : ∀ c text lexeme, Lexeme.first? rules (c :: text) = some lexeme →
      lexeme.rule.read lexeme.text = .skipped → motive lexeme.rest → motive (c :: text))
    (content : ∀ c text lexeme content, Lexeme.first? rules (c :: text) = some lexeme →
      lexeme.rule.read lexeme.text = .content content → motive lexeme.rest → motive (c :: text))
    (text : List Char) : motive text := by
  -- the rest behind a lexeme is shorter, but it is no tail in the sense of a structural induction
  induction hlength : text.length using Nat.strong_induction_on generalizing text with
  | _ length ih =>
    cases text with
    | nil => exact nil
    | cons c text =>
      cases hfirst : Lexeme.first? rules (c :: text) with
      | none => exact noRule c text hfirst
      | some lexeme =>
        have hlt : lexeme.rest.length < length := by
          rw [← hlength]
          exact Lexeme.rest_length_lt hfirst
        have hrest : motive lexeme.rest := ih lexeme.rest.length hlt lexeme.rest rfl
        cases hread : lexeme.rule.read lexeme.text with
        | refused => exact refused c text lexeme hfirst hread
        | skipped => exact skipped c text lexeme hfirst hread hrest
        | content found => exact content c text lexeme found hfirst hread hrest

variable {rules : List Rule} {c : Char} {text : List Char} {position : Position} {lexeme : Lexeme}

/-- The whole scan from a point is its first step and, behind a finding, the scan from there. -/
theorem all_eq (point : Point) :
    all rules point = match next rules point with
      | .found finding => (finding :: (all rules finding.next).1, (all rules finding.next).2)
      | .ended ending => ([], ending) := by
  rw [all]
  split
  · next hnext => rw [hnext]
  · next hnext => rw [hnext]

/-- The first step of a scan at a character is told by the first lexeme there. Where it fails, it
reports this character. -/
theorem next_cons (rules : List Rule) (c : Char) (text : List Char) (position : Position) :
    next rules ⟨c :: text, position⟩ =
      match Lexeme.first? rules (c :: text) with
      | none => .ended (.failure .noRule c ⟨c :: text, position⟩)
      | some lexeme =>
        match lexeme.rule.read lexeme.text with
        | .skipped => next rules (Point.past ⟨c :: text, position⟩ lexeme)
        | .refused => .ended (.failure .refusedLexeme c ⟨c :: text, position⟩)
        | .content content =>
          .found ⟨lexeme.rule, position, content, Point.past ⟨c :: text, position⟩ lexeme⟩ := by
  rw [next]
  dsimp only
  unfold round
  dsimp only
  cases hfirst : Lexeme.first? rules (c :: text) with
  | none => rfl
  | some lexeme =>
    dsimp only
    cases hread : lexeme.rule.read lexeme.text with
    | refused =>
      dsimp only
      rw [Lexeme.eq_sharp_of_refused hfirst hread]
    | _ => rfl

/-- At the end of the source a scan is finished. -/
theorem all_nil : all rules ⟨[], position⟩ = ([], .finish ⟨[], position⟩) := by
  rw [all_eq, next]

/-- Where no rule matches, a scan fails. -/
theorem all_of_none (h : Lexeme.first? rules (c :: text) = none) :
    all rules ⟨c :: text, position⟩ = ([], .failure .noRule c ⟨c :: text, position⟩) := by
  rw [all_eq, next_cons, h]

/-- A refused lexeme ends a scan at its first character. -/
theorem all_of_refused (h : Lexeme.first? rules (c :: text) = some lexeme)
    (hread : lexeme.rule.read lexeme.text = .refused) :
    all rules ⟨c :: text, position⟩ =
      ([], .failure .refusedLexeme c ⟨c :: text, position⟩) := by
  rw [all_eq, next_cons, h]
  dsimp only
  rw [hread]

/-- A lexeme that means nothing is passed over. -/
theorem all_of_skipped (h : Lexeme.first? rules text = some lexeme)
    (hread : lexeme.rule.read lexeme.text = .skipped) :
    all rules ⟨text, position⟩ = all rules ⟨lexeme.rest, position.after lexeme.text⟩ := by
  obtain ⟨c, tail, rfl⟩ := Lexeme.exists_eq_cons_of_first? h
  rw [all_eq, next_cons, h]
  dsimp only
  rw [hread, ← all_eq, Point.past_eq (Lexeme.spells_of_first? h)]

/-- A lexeme with a content is found, and the scan goes on behind it. -/
theorem all_of_content (h : Lexeme.first? rules text = some lexeme) {content : Content}
    (hread : lexeme.rule.read lexeme.text = .content content) :
    all rules ⟨text, position⟩ =
      let point : Point := ⟨lexeme.rest, position.after lexeme.text⟩
      (⟨lexeme.rule, position, content, point⟩ :: (all rules point).1, (all rules point).2) := by
  obtain ⟨c, tail, rfl⟩ := Lexeme.exists_eq_cons_of_first? h
  rw [all_eq, next_cons, h]
  dsimp only
  rw [hread, Point.past_eq (Lexeme.spells_of_first? h)]

end Scan

end MiniPascal
