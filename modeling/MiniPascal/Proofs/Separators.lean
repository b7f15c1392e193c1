import MiniPascal.Proofs.Items

/-!
# Separators

Blanks, tabs and newlines separate lexemes. Main statements: a separator at the start of a text can
be taken away without changing the items (`VariableTable.itemsFrom_cons_of_isSeparator`), and a
lexeme that makes a token is taken again in front of any separator or of nothing
(`Lexeme.first?_of_separator`).
-/

namespace MiniPascal

open Text

/-! ## Separators and lexemes -/

/-- Blanks, tabs and newlines. -/
def isSeparator (c : Char) : Bool :=
  isBlank c || c == '\n'

/-- There are three separators. -/
theorem eq_of_isSeparator {c : Char} (h : isSeparator c = true) :
    c = ' ' ∨ c = '\t' ∨ c = '\n' := by
  rw [isSeparator, Bool.or_eq_true, isBlank_iff, beq_iff_eq] at h
  exact or_assoc.1 h

/-- Of the lexemes that make tokens, only character literals hold separators. -/
theorem Rule.not_mem_of_isSeparator {rule : Rule} {word : List Char} {c : Char}
    (hspells : rule.Spells word) (hrule : rule.makesToken = true) (hchar : rule ≠ .char)
    (hc : isSeparator c = true) : c ∉ word := by
  have hdigit : c.isDigit = false := by rcases eq_of_isSeparator hc with rfl | rfl | rfl <;> rfl
  have halpha : c.isAlpha = false := by rcases eq_of_isSeparator hc with rfl | rfl | rfl <;> rfl
  have hsharp : c ≠ '#' := by rcases eq_of_isSeparator hc with rfl | rfl | rfl <;> decide
  have hpoint : c ≠ '.' := by rcases eq_of_isSeparator hc with rfl | rfl | rfl <;> decide
  have hword : ∀ {digits : List Char}, (∀ d ∈ digits, d.isDigit = true) → c ∉ digits := by
    intro digits hdigits hmem
    rw [hdigits c hmem] at hdigit
    cases hdigit
  intro hmem
  cases rule with
  | whitespace => cases hrule
  | newline => cases hrule
  | comment => cases hrule
  | char => exact hchar rfl
  | integer =>
    obtain ⟨whole, rfl, hwhole⟩ := hspells
    rcases List.mem_cons.1 hmem with heq | hmem
    · exact hsharp heq
    · exact hword hwhole.isDigit hmem
  | real =>
    obtain ⟨whole, fraction, rfl, hwhole, hfraction⟩ := hspells
    simp only [List.cons_append, List.mem_cons, List.mem_append] at hmem
    rcases hmem with heq | hmem | heq | hmem
    · exact hsharp heq
    · exact hword hwhole.isDigit hmem
    · exact hpoint heq
    · exact hword hfraction.isDigit hmem
  | boolean =>
    rw [isAlpha_of_spells_boolean hspells c hmem] at halpha
    cases halpha
  | identifier =>
    rw [hspells.2 c hmem] at halpha
    cases halpha
  | operator op =>
    have hnone : ∀ d ∈ op.spelling, (!isSeparator d) = true :=
      Operator.forall_mem_spelling (by decide) op
    rw [show word = op.spelling from hspells] at hmem
    have hmark := hnone c hmem
    rw [hc] at hmark
    cases hmark

/-- The rules whose lexemes make no token are overridden by none. -/
theorem Rule.overrides_of_makesToken_eq_false {rule : Rule} (h : rule.makesToken = false)
    (rival : Rule) : rival.overrides rule = false := by
  have hrivals : ∀ rule ∈ all, ∀ rival ∈ all, rule.makesToken = false →
      rival.overrides rule = false := by
    decide +kernel
  exact hrivals rule (mem_all rule) rival (mem_all rival) h

/-! ## Taking separators away -/

section Runs

variable {p : Char → Bool} {c : Char} {text : List Char}

/-- The first lexeme at a text is what a rule cuts off that makes no token. -/
theorem Lexeme.first?_of_makesToken_eq_false {rule : Rule} {word rest : List Char}
    (hrule : rule.makesToken = false) (hcut : rule.cut? text = some (word, rest)) :
    first? Rule.all text = some ⟨rule, word, rest⟩ :=
  first?_of_cut? Rule.isOrder_all hcut fun rival _ =>
    Rule.overrides_of_makesToken_eq_false hrule rival

/-- The first character of a run that makes no token can be taken away, be it the whole run or
not. -/
theorem VariableTable.itemsFrom_cons_of_run (table : VariableTable) (rule : Rule)
    (hrule : rule.makesToken = false) (hrun : rule.cut? = run? p) (hc : p c = true)
    (position : Position) :
    table.itemsFrom Rule.all ⟨c :: text, position⟩ =
      table.itemsFrom Rule.all ⟨text, position.after [c]⟩ := by
  have hfirst : ∀ {c : Char} {text : List Char}, p c = true →
      Lexeme.first? Rule.all (c :: text) =
        some ⟨rule, c :: text.takeWhile p, text.dropWhile p⟩ := by
    intro c text hc
    refine Lexeme.first?_of_makesToken_eq_false hrule ?_
    simp only [hrun, run?, List.takeWhile_cons_of_pos hc, List.dropWhile_cons_of_pos hc]
  have hread : ∀ word, rule.read word = .skipped := fun _ => Rule.read_eq_skipped_iff.2 hrule
  rw [itemsFrom_of_skipped table (hfirst hc) (hread _)]
  -- what is left of the run is a run again, or the run has ended
  cases text with
  | nil => rfl
  | cons d text =>
    by_cases hd : p d = true
    · rw [itemsFrom_of_skipped table (hfirst hd) (hread _), List.takeWhile_cons_of_pos hd,
        List.dropWhile_cons_of_pos hd, ← Position.after_append]
      rfl
    · rw [List.takeWhile_cons_of_neg hd, List.dropWhile_cons_of_neg hd]

end Runs

/-- **A separator at the start of a text can be taken away.** -/
theorem VariableTable.itemsFrom_cons_of_isSeparator (table : VariableTable) {c : Char}
    (hc : isSeparator c = true) (text : List Char) (position : Position) :
    table.itemsFrom Rule.all ⟨c :: text, position⟩ =
      table.itemsFrom Rule.all ⟨text, position.after [c]⟩ := by
  rcases Bool.or_eq_true_iff.1 hc with hblank | hline
  · exact table.itemsFrom_cons_of_run .whitespace rfl rfl hblank position
  · exact table.itemsFrom_cons_of_run .newline rfl rfl hline position

/-- Separators at the start of a text can be taken away. -/
theorem VariableTable.itemsFrom_append_of_isSeparator (table : VariableTable) {word : List Char}
    (hword : ∀ c ∈ word, isSeparator c = true) (text : List Char) (position : Position) :
    table.itemsFrom Rule.all ⟨word ++ text, position⟩ =
      table.itemsFrom Rule.all ⟨text, position.after word⟩ := by
  induction word generalizing position with
  | nil => rfl
  | cons c word ih =>
    have htail : ∀ d ∈ word, isSeparator d = true := fun d hd => hword d (List.mem_cons_of_mem c hd)
    rw [List.cons_append, table.itemsFrom_cons_of_isSeparator (hword c List.mem_cons_self),
      ih htail, ← Position.after_append]
    rfl

/-! ## Lexemes in front of separators -/

/-- No lexeme reaches over a separator behind a lexeme that makes a token, neither of the same rule
nor of one that overrides it. -/
theorem Rule.not_spells_append_of_isSeparator {rule rival : Rule} {word tail : List Char} {c : Char}
    (hspells : rule.Spells word) (hrule : rule.makesToken = true)
    (hrival : rival = rule ∨ rival.overrides rule = true) (hc : isSeparator c = true) :
    ¬ rival.Spells (word ++ c :: tail) := by
  intro hlong
  by_cases hchar : rival = .char
  · -- character literals are overridden by none and have one length for each first character
    subst hchar
    obtain rfl : Rule.char = rule := by
      rcases hrival with rfl | hover
      · rfl
      · cases hover
    obtain ⟨d, _, rfl | rfl⟩ := hspells
    · obtain ⟨e, _, heq | heq⟩ := hlong <;> simp at heq
    · obtain ⟨e, _, heq | heq⟩ := hlong <;> simp at heq
  · by_cases hcomment : rival = .comment
    · -- a slash in front of a separator does not begin a comment
      subst hcomment
      obtain rfl : rule = .operator .slash := by
        rcases hrival with rfl | hover
        · cases hrule
        · cases rule with
          | operator op => cases op <;> first | rfl | cases hover
          | _ => cases hover
      obtain ⟨body, hbody, _⟩ := hlong
      rw [show word = ['/'] from hspells, List.cons_append, List.nil_append, List.cons.injEq,
        List.cons.injEq] at hbody
      rw [hbody.2.1] at hc
      exact absurd hc (by decide)
    · have hrivalToken : rival.makesToken = true := by
        rcases hrival with rfl | hover
        · exact hrule
        · cases rival <;> first | rfl | cases hover | exact absurd rfl hcomment
      exact Rule.not_mem_of_isSeparator hlong hrivalToken hchar hc (by simp)

/-- A lexeme is taken again in front of another text if no lexeme that could rival it gets farther
there than in front of the first one. -/
theorem Lexeme.first?_of_within {rule : Rule} {word after other : List Char}
    (h : first? Rule.all (word ++ after) = some ⟨rule, word, after⟩)
    (hwithin : ∀ (rival : Rule) (long : List Char), rival = rule ∨ rival.overrides rule = true →
      rival.Spells long → long <+: word ++ other → long <+: word ++ after) :
    first? Rule.all (word ++ other) = some ⟨rule, word, other⟩ := by
  obtain ⟨hcut, hrivals⟩ := (first?_eq_some_iff Rule.isOrder_all).1 h
  have hlongest := (Rule.cutsLongest rule).isLongest hcut
  rw [first?_eq_some_iff Rule.isOrder_all]
  refine ⟨?_, fun rival hrival => ?_⟩
  · rw [(Rule.cutsLongest rule).eq_some_iff]
    refine ⟨⟨hlongest.mem, List.prefix_append _ _, ?_⟩, rfl⟩
    intro long hlong hbegin
    exact hlongest.length_le hlong (hwithin rule long (Or.inl rfl) hlong hbegin)
  · rw [(Rule.cutsLongest rival).eq_none_iff]
    intro long hbegin hlong
    have hbefore := hwithin rival long (Or.inr hrival) hlong hbegin
    exact (Rule.cutsLongest rival).eq_none_iff.1 (hrivals rival hrival) long hbefore hlong

/-- **A lexeme that makes a token is taken again in front of a separator**, or of nothing,
whatever has followed it. -/
theorem Lexeme.first?_of_separator {rule : Rule} {word after other : List Char}
    (h : first? Rule.all (word ++ after) = some ⟨rule, word, after⟩)
    (hrule : rule.makesToken = true) (hother : ∀ c ∈ other.head?, isSeparator c = true) :
    first? Rule.all (word ++ other) = some ⟨rule, word, other⟩ := by
  refine first?_of_within h fun rival long hrival hlong hbegin => ?_
  -- a lexeme that could rival the word does not get farther than the word
  rcases prefix_or_exists_of_prefix_append hbegin with hshort | ⟨c, tail, hc, rfl⟩
  · exact hshort.trans (List.prefix_append word after)
  · exact absurd hlong
      (Rule.not_spells_append_of_isSeparator (spells_of_first? h) hrule hrival (hother c hc))

end MiniPascal
