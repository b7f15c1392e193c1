import MiniPascal.Proofs.Positions

/-!
# Failures

A lexer fails where no rule matches, and where the lexeme that it takes is refused. This module says
what the texts look like at which that happens (`IsIllegal`), in terms of their first characters.
Main statement: the next token is an error at the start of a lexeme exactly if the text there is
illegal, and every error names the character at its offset (`Lexer.nextToken_error_iff_isIllegal`).
-/

namespace MiniPascal

open Text Numeral

variable {σ η : Type}

/-! ## Illegal texts -/

/-- The characters, other than letters, with which a lexeme can start. -/
def initials : List Char :=
  [' ', '\t', '\n', '#', '\\', '\'', '.', '<', '>', '=', ':', '(', ')', '[', ']', '\x7b', '\x7d',
   '+', '-', '*', '/', '%', ';', ',']

/-- Blanks and tabs are among them. -/
theorem mem_initials_of_isBlank {c : Char} (h : isBlank c = true) : c ∈ initials := by
  rcases isBlank_iff.1 h with rfl | rfl <;> decide

/-- A text that starts with no lexeme, or with an integer that is too large. -/
inductive IsIllegal : List Char → Prop where
  | sharp {rest : List Char} (hrest : ∀ d ∈ rest.head?, d.isDigit = false) : IsIllegal ('#' :: rest)
  | overflow {text digits : List Char}
      (hreal : ∀ word, word <+: text → ¬ Rule.Spells .real word)
      (hinteger : IsLongest (Rule.Spells .integer) text ('#' :: digits))
      (hlarge : Nat.pow 2 63 - 1 < ofDigits digits) : IsIllegal text
  | backslash : IsIllegal ['\\']
  | backslashNewline (rest : List Char) : IsIllegal ('\\' :: '\n' :: rest)
  | quote {rest : List Char} (hrest : ∀ c after, c ≠ '\n' → rest ≠ c :: '\'' :: after) :
      IsIllegal ('\'' :: rest)
  | point {rest : List Char} (hrest : rest.head? ≠ some '.') : IsIllegal ('.' :: rest)
  | other {c : Char} (hinitial : c ∉ initials) (hletter : c.isAlpha = false) (rest : List Char) :
      IsIllegal (c :: rest)

/-- A text starts with an integer that is too large, and with no real. -/
def StartsTooLarge (text : List Char) : Prop :=
  (∀ word, word <+: text → ¬ Rule.Spells .real word) ∧
    ∃ digits, IsLongest (Rule.Spells .integer) text ('#' :: digits) ∧
      Nat.pow 2 63 - 1 < ofDigits digits

/-! ## How lexemes go on -/

namespace Rule

variable {rule : Rule} {c : Char} {tail : List Char}

/-- A lexeme starts with a letter or one of the other initials. -/
theorem mem_initials_or_isAlpha_of_spells (h : rule.Spells (c :: tail)) :
    c ∈ initials ∨ c.isAlpha = true := by
  cases rule with
  | whitespace => exact Or.inl (mem_initials_of_isBlank (h.2 c List.mem_cons_self))
  | newline =>
    obtain rfl : c = '\n' := beq_iff_eq.1 (h.2 c List.mem_cons_self)
    exact Or.inl (by decide)
  | comment =>
    obtain ⟨_, heq, -⟩ := h
    cases heq
    exact Or.inl (by decide)
  | real =>
    obtain ⟨_, _, heq, -⟩ := h
    cases heq
    exact Or.inl (by decide)
  | integer =>
    obtain ⟨_, heq, -⟩ := h
    cases heq
    exact Or.inl (by decide)
  | char =>
    obtain ⟨_, -, heq | heq⟩ := h
    · cases heq
      exact Or.inl (by decide)
    · cases heq
      exact Or.inl (by decide)
  | boolean => exact Or.inr (isAlpha_of_spells_boolean h c List.mem_cons_self)
  | identifier => exact Or.inr (h.2 c List.mem_cons_self)
  | operator op =>
    have hspelling := Operator.forall_mem_spelling (p := (decide <| · ∈ initials)) (by decide) op c
    rw [← show c :: tail = op.spelling from h] at hspelling
    exact Or.inl (of_decide_eq_true (hspelling List.mem_cons_self))

/-- In a lexeme a digit follows a sharp sign. -/
theorem exists_isDigit_of_spells (h : rule.Spells ('#' :: tail)) :
    ∃ d others, tail = d :: others ∧ d.isDigit = true := by
  have hinitial := initial_eq_of_spells h
  rw [show Initial.of '#' = .sharp by decide] at hinitial
  have hwhole : ∀ {whole : List Char}, IsWhole whole →
      ∃ d others, whole = d :: others ∧ d.isDigit = true := by
    intro whole hwhole
    obtain ⟨d, others, rfl⟩ := List.exists_cons_of_ne_nil hwhole.ne_nil
    exact ⟨d, others, rfl, hwhole.isDigit d List.mem_cons_self⟩
  cases rule <;> cases hinitial
  · obtain ⟨whole, fraction, heq, hdigits, -⟩ := h
    obtain ⟨d, others, rfl, hd⟩ := hwhole hdigits
    exact ⟨d, _, (List.cons.inj heq).2, hd⟩
  · obtain ⟨whole, heq, hdigits⟩ := h
    obtain ⟨d, others, rfl, hd⟩ := hwhole hdigits
    exact ⟨d, others, (List.cons.inj heq).2, hd⟩

/-- In a lexeme one character follows a backslash. -/
theorem exists_eq_of_spells_backslash (h : rule.Spells ('\\' :: tail)) :
    ∃ c, c ≠ '\n' ∧ tail = [c] := by
  have hinitial := initial_eq_of_spells h
  rw [show Initial.of '\\' = .quote by decide] at hinitial
  cases rule <;> cases hinitial
  obtain ⟨c, hc, heq | heq⟩ := h
  · exact ⟨c, hc, (List.cons.inj heq).2⟩
  · cases heq

/-- In a lexeme one character and another quote follow a quote. -/
theorem exists_eq_of_spells_quote (h : rule.Spells ('\'' :: tail)) :
    ∃ c, c ≠ '\n' ∧ tail = [c, '\''] := by
  have hinitial := initial_eq_of_spells h
  rw [show Initial.of '\'' = .quote by decide] at hinitial
  cases rule <;> cases hinitial
  obtain ⟨c, hc, heq | heq⟩ := h
  · cases heq
  · exact ⟨c, hc, (List.cons.inj heq).2⟩

/-- In a lexeme another point follows a point at its start. -/
theorem eq_of_spells_point (h : rule.Spells ('.' :: tail)) : tail = ['.'] := by
  have hinitial := initial_eq_of_spells h
  rw [show Initial.of '.' = .mark by decide] at hinitial
  cases rule <;> cases hinitial
  · obtain ⟨_, heq, -⟩ := h
    cases heq
  · next op =>
    have heq : '.' :: tail = op.spelling := h
    cases op <;> cases heq
    rfl

/-- Reals are the only rivals of integers. -/
theorem eq_real_of_overrides {rival : Rule} (h : rival.overrides .integer = true) :
    rival = .real := by
  have hall : ∀ rival ∈ all, rival.overrides .integer = true → rival = .real := by decide
  exact hall rival (mem_all rival) h

/-- An integer is refused if it is larger than the largest one of 64 bits. -/
theorem read_integer_eq_refused_iff {digits : List Char} :
    read .integer ('#' :: digits) = .refused ↔ Nat.pow 2 63 - 1 < ofDigits digits := by
  have hread : read .integer ('#' :: digits) = readInteger digits := rfl
  rw [hread, readInteger, show Nat.pow 2 63 - 1 = maxInteger from rfl]
  by_cases hle : ofDigits digits ≤ maxInteger
  · rw [if_pos hle]
    constructor
    · intro h
      cases h
    · intro hlt
      exact absurd hle (Nat.not_le_of_lt hlt)
  · rw [if_neg hle]
    exact iff_of_true rfl (Nat.lt_of_not_le hle)

/-- Some rule has a lexeme of one letter. -/
theorem exists_spells_of_isAlpha (hc : c.isAlpha = true) : ∃ rule : Rule, rule.Spells [c] := by
  refine ⟨.identifier, List.cons_ne_nil c [], ?_⟩
  exact List.forall_mem_singleton.2 hc

/-- Initials are lexemes by themselves, except for the four that need something behind them. -/
theorem exists_spells_of_mem_initials (hc : c ∈ initials) (hmore : c ∉ ['#', '\\', '\'', '.']) :
    ∃ rule : Rule, rule.Spells [c] := by
  have hall : (initials.all fun c => c ∉ ['#', '\\', '\'', '.'] →
      all.any fun rule => rule.cut? [c] = some ([c], [])) = true := by
    decide
  have hany := of_decide_eq_true (List.all_eq_true.1 hall c hc) hmore
  obtain ⟨rule, -, hcut⟩ := List.any_eq_true.1 hany
  exact ⟨rule, ((cutsLongest rule).isLongest (of_decide_eq_true hcut)).mem⟩

end Rule

/-! ## Illegal texts and first lexemes -/

/-- No rule matches a text if the rest after its first character goes on in no lexeme. -/
theorem Lexeme.first?_cons_eq_none_iff {c : Char} {rest : List Char} :
    first? Rule.all (c :: rest) = none ↔
      ∀ (rule : Rule) (tail : List Char), tail <+: rest → ¬ rule.Spells (c :: tail) := by
  rw [first?_eq_none_iff Rule.mem_all]
  constructor
  · intro h rule tail htail
    exact h rule (c :: tail) (List.cons_prefix_cons.2 ⟨rfl, htail⟩)
  · intro h rule word hbegin hword
    obtain ⟨d, tail, rfl⟩ := List.exists_cons_of_ne_nil (Rule.ne_nil_of_spells hword)
    obtain ⟨rfl, htail⟩ := List.cons_prefix_cons.1 hbegin
    exact h rule tail htail hword

/-- The first lexeme of a text is refused exactly if it is an integer that is too large. -/
theorem Lexeme.exists_refused_iff {text : List Char} :
    (∃ lexeme, first? Rule.all text = some lexeme ∧ lexeme.rule.read lexeme.text = .refused) ↔
      StartsTooLarge text := by
  constructor
  · rintro ⟨lexeme, hfirst, hread⟩
    have hinteger := Rule.eq_integer_of_refused (spells_of_first? hfirst) hread
    obtain ⟨hcut, hrivals⟩ := (first?_eq_some_iff Rule.isOrder_all).1 hfirst
    rw [hinteger] at hcut hrivals hread
    have hlongest := (Rule.cutsLongest .integer).isLongest hcut
    obtain ⟨digits, htext, -⟩ := hlongest.mem
    rw [htext] at hlongest hread
    exact ⟨(Rule.cutsLongest .real).eq_none_iff.1 (hrivals .real rfl), digits, hlongest,
      Rule.read_integer_eq_refused_iff.1 hread⟩
  · rintro ⟨hreal, digits, hinteger, hlarge⟩
    obtain ⟨rest, happend⟩ := hinteger.isPrefix
    refine ⟨⟨.integer, '#' :: digits, rest⟩, ?_, Rule.read_integer_eq_refused_iff.2 hlarge⟩
    rw [first?_eq_some_iff Rule.isOrder_all]
    refine ⟨(Rule.cutsLongest .integer).eq_some_iff.2 ⟨hinteger, happend⟩, ?_⟩
    intro rival hrival
    rw [Rule.eq_real_of_overrides hrival]
    exact (Rule.cutsLongest .real).eq_none_iff.2 hreal

namespace IsIllegal

variable {c : Char} {text rest : List Char}

/-- Digits and characters beyond ASCII start no lexeme. -/
theorem of_isDigit_or_le (hc : c.isDigit = true ∨ 128 ≤ c.toNat) (rest : List Char) :
    IsIllegal (c :: rest) := by
  have hinitials : (initials.all fun d => d.isDigit = false ∧ d.toNat < 128) = true := by decide
  refine .other ?_ ?_ rest
  · intro hmem
    obtain ⟨hdigit, hlt⟩ := of_decide_eq_true (List.all_eq_true.1 hinitials c hmem)
    rcases hc with hc | hc
    · rw [hdigit] at hc
      cases hc
    · omega
  · rw [← Bool.not_eq_true]
    intro hletter
    rcases hc with hc | hc
    · have hsort := Initial.of_isDigit hc
      rw [Initial.of_isAlpha hletter] at hsort
      cases hsort
    · exact absurd hc (Nat.not_le_of_lt (toNat_of_isAlpha hletter).2)

/-- At an illegal text no rule matches, or the first lexeme is refused. -/
theorem first?_eq_none_or_refused (h : IsIllegal text) :
    Lexeme.first? Rule.all text = none ∨ ∃ lexeme, Lexeme.first? Rule.all text = some lexeme ∧
      lexeme.rule.read lexeme.text = .refused := by
  cases h with
  | @sharp rest hrest =>
    left
    rw [Lexeme.first?_cons_eq_none_iff]
    intro rule tail htail hspells
    obtain ⟨d, others, rfl, hd⟩ := Rule.exists_isDigit_of_spells hspells
    obtain ⟨after, rfl⟩ := htail
    rw [hrest d rfl] at hd
    cases hd
  | @overflow text digits hreal hinteger hlarge =>
    exact Or.inr (Lexeme.exists_refused_iff.2 ⟨hreal, digits, hinteger, hlarge⟩)
  | backslash =>
    left
    rw [Lexeme.first?_cons_eq_none_iff]
    intro rule tail htail hspells
    obtain ⟨d, -, rfl⟩ := Rule.exists_eq_of_spells_backslash hspells
    simp at htail
  | backslashNewline rest =>
    left
    rw [Lexeme.first?_cons_eq_none_iff]
    intro rule tail htail hspells
    obtain ⟨d, hd, rfl⟩ := Rule.exists_eq_of_spells_backslash hspells
    exact hd (List.cons_prefix_cons.1 htail).1
  | @quote rest hrest =>
    left
    rw [Lexeme.first?_cons_eq_none_iff]
    intro rule tail htail hspells
    obtain ⟨d, hd, rfl⟩ := Rule.exists_eq_of_spells_quote hspells
    obtain ⟨after, rfl⟩ := htail
    exact hrest d after hd rfl
  | @point rest hrest =>
    left
    rw [Lexeme.first?_cons_eq_none_iff]
    intro rule tail htail hspells
    obtain rfl := Rule.eq_of_spells_point hspells
    obtain ⟨after, rfl⟩ := htail
    exact hrest rfl
  | @other c hinitial hletter rest =>
    left
    rw [Lexeme.first?_cons_eq_none_iff]
    intro rule tail _ hspells
    rcases Rule.mem_initials_or_isAlpha_of_spells hspells with hmem | halpha
    · exact hinitial hmem
    · rw [hletter] at halpha
      cases halpha

/-- A text that no rule matches is illegal. -/
theorem of_first?_eq_none (h : Lexeme.first? Rule.all (c :: rest) = none) :
    IsIllegal (c :: rest) := by
  rw [Lexeme.first?_cons_eq_none_iff] at h
  have hsingle : ¬ ∃ rule : Rule, rule.Spells [c] := by
    rintro ⟨rule, hspells⟩
    exact h rule [] (List.nil_prefix) hspells
  have hletter : c.isAlpha = false := by
    rw [← Bool.not_eq_true]
    exact fun hc => hsingle (Rule.exists_spells_of_isAlpha hc)
  by_cases hinitial : c ∈ initials
  · have hmore : c ∈ ['#', '\\', '\'', '.'] := by
      by_contra hmore
      exact hsingle (Rule.exists_spells_of_mem_initials hinitial hmore)
    simp only [List.mem_cons, List.not_mem_nil, or_false] at hmore
    rcases hmore with rfl | rfl | rfl | rfl
    · refine .sharp ?_
      intro d hd
      rw [← Bool.not_eq_true]
      intro hdigit
      obtain ⟨after, rfl⟩ := List.head?_eq_some_iff.1 hd
      refine h .integer [d] ⟨after, rfl⟩ ⟨[d], rfl, by simp, by simpa using hdigit, ?_⟩
      intro hzero
      rw [List.head?_cons, Option.some.injEq] at hzero
      rw [hzero]
    · cases rest with
      | nil => exact .backslash
      | cons d rest =>
        obtain rfl : d = '\n' := by
          by_contra hd
          exact h .char [d] ⟨rest, rfl⟩ ⟨d, hd, Or.inl rfl⟩
        exact .backslashNewline rest
    · refine .quote ?_
      rintro d after hd rfl
      exact h .char [d, '\''] ⟨after, rfl⟩ ⟨d, hd, Or.inr rfl⟩
    · refine .point ?_
      intro hpoint
      obtain ⟨after, rfl⟩ := List.head?_eq_some_iff.1 hpoint
      exact h (.operator .dotDot) ['.'] ⟨after, rfl⟩ rfl
  · exact .other hinitial hletter rest

/-- A text whose first lexeme is refused is illegal. -/
theorem of_refused {lexeme : Lexeme} (h : Lexeme.first? Rule.all text = some lexeme)
    (hread : lexeme.rule.read lexeme.text = .refused) : IsIllegal text := by
  obtain ⟨hreal, digits, hinteger, hlarge⟩ := Lexeme.exists_refused_iff.1 ⟨lexeme, h, hread⟩
  exact .overflow hreal hinteger hlarge

end IsIllegal

/-! ## Failing scans -/

namespace Scan

/-- Where a scan fails, it reports the first character of an illegal text. -/
theorem isIllegal_of_failure {point stop : Point} {cause : Cause} {c : Char}
    (h : next Rule.all point = .ended (.failure cause c stop)) :
    ∃ tail, stop.rest = c :: tail ∧ IsIllegal stop.rest := by
  obtain ⟨-, hdecides⟩ := visits_of_ended h
  cases hdecides with
  | @noRule c tail hrest hnone =>
    change stop.rest = c :: tail at hrest
    change Lexeme.first? Rule.all stop.rest = none at hnone
    rw [hrest] at hnone ⊢
    exact ⟨tail, rfl, .of_first?_eq_none hnone⟩
  | @refused c tail lexeme hrest hfirst hread => exact ⟨tail, hrest, .of_refused hfirst hread⟩

/-- A scan fails because of a refused lexeme exactly where an integer is too large. -/
theorem eq_refusedLexeme_iff {point stop : Point} {cause : Cause} {c : Char}
    (h : next Rule.all point = .ended (.failure cause c stop)) :
    cause = .refusedLexeme ↔ StartsTooLarge stop.rest := by
  obtain ⟨-, hdecides⟩ := visits_of_ended h
  rw [← Lexeme.exists_refused_iff]
  cases hdecides with
  | noRule _ hnone =>
    refine iff_of_false (by decide) ?_
    rintro ⟨lexeme, hfirst, -⟩
    cases hnone.symm.trans hfirst
  | refused _ hfirst hread => exact iff_of_true rfl ⟨_, hfirst, hread⟩

/-- The whole scan from a point ends as a step from some later point does. -/
theorem exists_next_eq_ended (rules : List Rule) (point : Point) :
    ∃ stop, point.LeadsTo stop ∧ next rules stop = .ended (all rules point).2 := by
  induction point using Scan.all.induct rules with
  | case1 point finding hnext findings ending hall ih =>
    obtain ⟨stop, hstop, hended⟩ := ih
    obtain ⟨start, hstart, -, hpast, -⟩ := exists_leadsTo_of_found hnext
    refine ⟨stop, (hstart.trans hpast).trans hstop, ?_⟩
    rw [all_eq, hnext]
    exact hended
  | case2 point ending hnext =>
    refine ⟨point, .refl point, ?_⟩
    rw [all_eq, hnext]

/-- Where a whole scan fails, it reports the first character of an illegal text, and it fails
because of a refused lexeme exactly if this text starts with an integer that is too large. -/
theorem isIllegal_of_all {point stop : Point} {cause : Cause} {c : Char}
    (h : (all Rule.all point).2 = .failure cause c stop) :
    point.LeadsTo stop ∧ (∃ tail, stop.rest = c :: tail ∧ IsIllegal stop.rest) ∧
      (cause = .refusedLexeme ↔ StartsTooLarge stop.rest) := by
  obtain ⟨last, hlast, hnext⟩ := exists_next_eq_ended Rule.all point
  rw [h] at hnext
  exact ⟨hlast.trans (visits_of_ended hnext).1.leadsTo, isIllegal_of_failure hnext,
    eq_refusedLexeme_iff hnext⟩

/-- At an illegal text a scan fails at the first character. -/
theorem exists_failure_of_isIllegal {point : Point} {c : Char} {tail : List Char}
    (hrest : point.rest = c :: tail) (h : IsIllegal point.rest) :
    ∃ cause, next Rule.all point = .ended (.failure cause c point) := by
  rcases h.first?_eq_none_or_refused with hnone | ⟨lexeme, hfirst, hread⟩
  · exact ⟨.noRule, next_of_decides (.noRule hrest hnone)⟩
  · exact ⟨.refusedLexeme, next_of_decides (.refused hrest hfirst hread)⟩

/-- A step fails at a point that it visits exactly if the text there is illegal. -/
theorem exists_failure_iff_isIllegal {point stop : Point} (hstop : point.Visits Rule.all stop)
    (hrest : stop.rest ≠ []) :
    (∃ cause c last, next Rule.all point = .ended (.failure cause c last) ∧
      last.position = stop.position) ↔ IsIllegal stop.rest := by
  rw [next_of_visits hstop]
  constructor
  · rintro ⟨cause, c, last, hnext, hposition⟩
    have hlast : last = stop :=
      (visits_of_ended hnext).1.leadsTo.eq_of_offset_eq (congrArg Position.offset hposition)
    obtain ⟨tail, -, hillegal⟩ := isIllegal_of_failure hnext
    rw [← hlast]
    exact hillegal
  · intro hillegal
    obtain ⟨c, tail, hcons⟩ := List.exists_cons_of_ne_nil hrest
    obtain ⟨cause, hnext⟩ := exists_failure_of_isIllegal hcons hillegal
    exact ⟨cause, c, stop, hnext, rfl⟩

end Scan

/-! ## Errors -/

/-- Where something is left behind an offset, the offset lies in the source. -/
theorem offset_lt_of_dropBytes? {offset : Nat} {text tail : List Char} {c : Char}
    (h : dropBytes? offset text = some (c :: tail)) : offset < byteLength text := by
  obtain ⟨before, rfl, rfl⟩ := dropBytes?_eq_some_iff.1 h
  have hpos : 0 < c.utf8Size := Char.utf8Size_pos c
  rw [byteLength_append, byteLength_cons]
  omega

namespace Lexer

variable (table : SymbolTable σ η) {lexer : Lexer} (state : σ)

/-- The next token is an error exactly if the step of the scan fails. -/
theorem nextToken_eq_error_iff {error : Error} :
    ((lexer.nextToken table).run state).1.1 = .error error ↔
      ∃ cause c stop, Scan.next lexer.rules lexer.point = .ended (.failure cause c stop) ∧
        error = .illegalCharacter c stop.position := by
  unfold nextToken
  rw [StateT.run_bind]
  cases hnext : Scan.next lexer.rules lexer.point with
  | found finding =>
    obtain ⟨lookup, token, state', hrun, -⟩ := exists_run_pull_of_found table state hnext
    rw [hrun]
    constructor
    · intro h
      cases h
    · rintro ⟨_, _, _, h, -⟩
      cases h
  | ended ending =>
    rw [run_pull_of_ended table state hnext]
    cases ending with
    | finish stop =>
      constructor
      · intro h
        cases h
      · rintro ⟨_, _, _, h, -⟩
        cases h
    | failure cause c stop =>
      constructor
      · intro h
        exact ⟨cause, c, stop, rfl, (Except.error.inj h).symm⟩
      · rintro ⟨_, _, _, h, rfl⟩
        cases h
        rfl

/-- After an error the lexer stands where the scan has failed. -/
theorem nextToken_point_of_failure {cause : Cause} {c : Char} {stop : Point}
    (h : Scan.next lexer.rules lexer.point = .ended (.failure cause c stop)) :
    ((lexer.nextToken table).run state).1.2 = { lexer with point := stop } := by
  unfold nextToken
  rw [StateT.run_bind, run_pull_of_ended table state h]
  rfl

/-- A lexer fails at a lexeme's start to which it comes exactly if the text there is illegal. -/
theorem exists_nextToken_error_iff (hrules : lexer.rules = Rule.all) {point : Point}
    (hpoint : lexer.point.Visits Rule.all point) (hrest : point.rest ≠ []) :
    (∃ error, ((lexer.nextToken table).run state).1.1 = .error error ∧
      error.position = point.position) ↔ IsIllegal point.rest := by
  rw [← Scan.exists_failure_iff_isIllegal hpoint hrest, ← hrules]
  constructor
  · rintro ⟨error, herror, hposition⟩
    obtain ⟨cause, c, stop, hnext, rfl⟩ := (nextToken_eq_error_iff table state).1 herror
    exact ⟨cause, c, stop, hnext, hposition⟩
  · rintro ⟨cause, c, stop, hnext, hposition⟩
    refine ⟨.illegalCharacter c stop.position, ?_, hposition⟩
    exact (nextToken_eq_error_iff table state).2 ⟨cause, c, stop, hnext, rfl⟩

/-- An error names the first character of an illegal text at its offset, and there the cursor
stands. -/
theorem exists_character_of_nextToken_error {source : String} {items : List Item}
    (hlexer : (Lexer.start source).Delivers items lexer) {error : Error}
    (herror : ((lexer.nextToken table).run state).1.1 = .error error) :
    ∃ c tail, error.kind = .illegalCharacter c ∧
      ((lexer.nextToken table).run state).1.2.cursor.offset = error.position.offset ∧
      ((lexer.nextToken table).run state).1.2.cursor.character? = some (some c) ∧
      dropBytes? error.position.offset source.toList = some (c :: tail) ∧
      IsIllegal (c :: tail) := by
  obtain ⟨cause, c, stop, hnext, rfl⟩ := (nextToken_eq_error_iff table state).1 herror
  rw [nextToken_point_of_failure table state hnext]
  have hrules : lexer.rules = Rule.all := hlexer.rules_eq
  have hsource : lexer.source = source := hlexer.source_eq
  rw [hrules] at hnext
  obtain ⟨tail, hrest, hillegal⟩ := Scan.isIllegal_of_failure hnext
  have hstop : (Point.start source.toList).LeadsTo stop :=
    hlexer.yields.leadsTo.trans (Scan.visits_of_ended hnext).1.leadsTo
  have hdrop := Point.dropBytes?_of_leadsTo hstop
  rw [hrest] at hdrop hillegal
  refine ⟨c, tail, rfl, rfl, ?_, hdrop, hillegal⟩
  show (dropBytes? stop.position.offset lexer.source.toList).map List.head? = _
  rw [hsource, hdrop]
  rfl

/-- **The next token is an error exactly at an illegal text, and errors are faithful.** After any
calls, whatever the symbol table answers: at each lexeme's start to which the lexer comes for its
next token, it fails exactly if the text there is illegal. The character that an error names stands
in the source at its offset, where the cursor has stopped. No digit and no character beyond ASCII
starts a lexeme. -/
theorem nextToken_error_iff_isIllegal (source : String) (calls : List Call) :
    let ((_, lexer), state') := ((Lexer.start source).answers table calls).run state
    let (result, lexer') := ((lexer.nextToken table).run state').1
    (∀ point, lexer.point.Visits Rule.all point → point.rest ≠ [] →
      ((∃ error, result = .error error ∧ error.position = point.position) ↔
        IsIllegal point.rest)) ∧
    (∀ error, result = .error error → ∃ c tail,
      error.kind = .illegalCharacter c ∧
        lexer'.cursor.offset = error.position.offset ∧
        lexer'.cursor.character? = some (some c) ∧
        error.position.offset < byteLength source.toList ∧
        dropBytes? error.position.offset source.toList = some (c :: tail) ∧
        IsIllegal (c :: tail)) ∧
    ∀ (c : Char) (tail : List Char), c.isDigit = true ∨ 128 ≤ c.toNat → IsIllegal (c :: tail) := by
  have hdelivers := delivers_of_answers table state (Lexer.start source) calls
  cases hrun : ((Lexer.start source).answers table calls).run state with
  | mk answers state' =>
    obtain ⟨answers, lexer⟩ := answers
    rw [hrun] at hdelivers
    dsimp only at hdelivers ⊢
    refine ⟨?_, ?_, fun c tail hc => .of_isDigit_or_le hc tail⟩
    · intro point hpoint hrest
      exact exists_nextToken_error_iff table state' hdelivers.rules_eq hpoint hrest
    · intro error herror
      obtain ⟨c, tail, hkind, hoffset, hcharacter, hdrop, hillegal⟩ :=
        exists_character_of_nextToken_error table state' hdelivers herror
      exact ⟨c, tail, hkind, hoffset, hcharacter, offset_lt_of_dropBytes? hdrop, hdrop, hillegal⟩

/-- An integer that is too large by one is an error, at its sharp sign and on its line. -/
theorem nextToken_error_of_overflow :
    ∃ error, (((Lexer.start "\n#9223372036854775808").nextToken VariableTable.symbols).run
      .empty).1.1 = .error error ∧ error.position = ⟨2, 1⟩ := by
  have hfirst : Lexeme.first? Rule.all "\n#9223372036854775808".toList =
      some ⟨.newline, ['\n'], "#9223372036854775808".toList⟩ := by decide
  have hvisits : (Lexer.start "\n#9223372036854775808").point.Visits Rule.all _ :=
    .past .start hfirst rfl
  have hreal : Rule.cut? .real "#9223372036854775808".toList = none := by decide
  have hinteger : Rule.cut? .integer "#9223372036854775808".toList =
      some ('#' :: "9223372036854775808".toList, []) := by decide
  have hillegal : IsIllegal "#9223372036854775808".toList :=
    .overflow ((Rule.cutsLongest .real).eq_none_iff.1 hreal)
      ((Rule.cutsLongest .integer).isLongest hinteger) (by decide)
  obtain ⟨hiff, -⟩ := nextToken_error_iff_isIllegal VariableTable.symbols .empty
    "\n#9223372036854775808" []
  exact (hiff _ hvisits (by decide)).2 hillegal

end Lexer

end MiniPascal
