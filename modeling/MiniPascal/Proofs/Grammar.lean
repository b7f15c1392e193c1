import MiniPascal.Proofs.Items

/-!
# The grammar of sources

The grammar asks no more of a source than that it can be cut, in whatever way, into pieces that are
lexemes each for itself. A scan cuts in one way only and never tries another one. Main statements:
taking the first lexeme of a text that can be cut leaves a text that can be cut
(`IsSegmentable.of_first?`), so that the sources with tokens are exactly those that can be cut
(`VariableTable.exists_tokenize_eq_ok_iff`).
-/

namespace MiniPascal

open Text

/-! ## Cutting into pieces -/

/-- A text is a lexeme of a rule by itself, and an integer is not too large. -/
def Rule.Accepts (rule : Rule) (text : List Char) : Prop :=
  rule.Spells text ∧ (rule = .integer → ofDigits (text.drop 1) ≤ maxInteger)

/-- A text can be cut into consecutive pieces, each of which some rule accepts. -/
def IsSegmentable (text : List Char) : Prop :=
  ∃ pieces : List (List Char), pieces.flatten = text ∧
    ∀ piece ∈ pieces, ∃ rule : Rule, rule.Accepts piece

/-- A rule accepts a text of its language exactly when reading does not refuse it. -/
theorem Rule.accepts_iff_read {rule : Rule} {text : List Char} (h : rule.Spells text) :
    rule.Accepts text ↔ rule.read text ≠ .refused := by
  unfold Accepts
  cases rule with
  | integer =>
    rw [read, readInteger]
    split
    · next hle => exact ⟨fun _ => by simp, fun _ => ⟨h, fun _ => hle⟩⟩
    · next hle => exact ⟨fun haccepts => absurd (haccepts.2 rfl) hle, fun hne => absurd rfl hne⟩
  | identifier =>
    rw [read, readWord]
    split <;> simp [h]
  | real =>
    obtain ⟨whole, fraction, rfl, hwhole, hfraction⟩ := h
    rw [read_real hwhole hfraction]
    exact ⟨fun _ => by simp, fun _ => ⟨⟨whole, fraction, rfl, hwhole, hfraction⟩, by simp⟩⟩
  | _ => simp [h, read]

namespace IsSegmentable

/-- The empty text is cut into no pieces. -/
theorem nil : IsSegmentable [] :=
  ⟨[], rfl, by simp⟩

/-- An accepted piece may stand before a text that can be cut. -/
theorem append {rule : Rule} {piece rest : List Char} (hpiece : rule.Accepts piece)
    (h : IsSegmentable rest) : IsSegmentable (piece ++ rest) := by
  obtain ⟨pieces, rfl, hpieces⟩ := h
  refine ⟨piece :: pieces, rfl, ?_⟩
  intro other hother
  rcases List.mem_cons.1 hother with rfl | hother
  · exact ⟨rule, hpiece⟩
  · exact hpieces other hother

/-- A text that can be cut is empty or starts with an accepted piece. -/
theorem cases {text : List Char} (h : IsSegmentable text) :
    text = [] ∨ ∃ (rule : Rule) (piece rest : List Char),
      rule.Accepts piece ∧ piece ++ rest = text ∧ IsSegmentable rest := by
  obtain ⟨pieces, rfl, hpieces⟩ := h
  cases pieces with
  | nil => exact Or.inl rfl
  | cons piece pieces =>
    obtain ⟨rule, hrule⟩ := hpieces piece List.mem_cons_self
    refine Or.inr ⟨rule, piece, pieces.flatten, hrule, rfl, pieces, rfl, ?_⟩
    intro other hother
    exact hpieces other (List.mem_cons_of_mem piece hother)

/-! ## Characters that can be taken away one by one -/

/-- A character is loose if taking it off the front of an accepted piece leaves nothing or another
accepted piece. -/
def IsLoose (c : Char) : Prop :=
  ∀ (rule : Rule) (tail : List Char), rule.Accepts (c :: tail) →
    tail = [] ∨ ∃ other : Rule, other.Accepts tail

/-- A loose character can be taken off a text that can be cut. -/
theorem of_cons {c : Char} {text : List Char} (hc : IsLoose c) (h : IsSegmentable (c :: text)) :
    IsSegmentable text := by
  rcases h.cases with hnil | ⟨rule, piece, rest, hpiece, happend, hrest⟩
  · cases hnil
  · cases piece with
    | nil => exact absurd rfl (Rule.ne_nil_of_spells hpiece.1)
    | cons d tail =>
      rw [List.cons_append, List.cons.injEq] at happend
      obtain ⟨rfl, rfl⟩ := happend
      rcases hc rule tail hpiece with rfl | ⟨other, hother⟩
      · exact hrest
      · exact hrest.append hother

/-- Loose characters can be taken off a text that can be cut. -/
theorem of_append {word text : List Char} (hword : ∀ c ∈ word, IsLoose c)
    (h : IsSegmentable (word ++ text)) : IsSegmentable text := by
  induction word with
  | nil => exact h
  | cons c word ih =>
    have htail : ∀ d ∈ word, IsLoose d := fun d hd => hword d (List.mem_cons_of_mem c hd)
    exact ih htail (h.of_cons (hword c List.mem_cons_self))

/-- A character is loose if whatever starts like it is a run of one class: what is left of a run is
empty or a run. -/
theorem isLoose_of_run (rule : Rule) {p : Char → Bool} {c : Char} {sort : Initial}
    (hrule : ∀ word, rule.Spells word ↔ word ≠ [] ∧ ∀ d ∈ word, p d = true)
    (hne : rule ≠ .integer) (hc : Initial.of c = sort)
    (hruns : ∀ (other : Rule) (word : List Char), other.initial = sort → other.Spells word →
      ∀ d ∈ word, p d = true) : IsLoose c := by
  intro other tail hother
  by_cases htail : tail = []
  · exact Or.inl htail
  · have hinitial : other.initial = sort := by
      rw [← Rule.initial_eq_of_spells hother.1, hc]
    have hrun : ∀ d ∈ tail, p d = true := fun d hd =>
      hruns other (c :: tail) hinitial hother.1 d (List.mem_cons_of_mem c hd)
    exact Or.inr ⟨rule, (hrule tail).2 ⟨htail, hrun⟩, fun heq => absurd heq hne⟩

/-- Blanks are loose. -/
theorem isLoose_of_isBlank {c : Char} (hc : isBlank c = true) : IsLoose c := by
  refine isLoose_of_run .whitespace (fun _ => Iff.rfl) (by decide)
    (show Initial.of c = .blank by simp [Initial.of, hc]) ?_
  intro other word hinitial hother
  cases other <;> cases hinitial
  exact hother.2

/-- Newlines are loose. -/
theorem isLoose_newline : IsLoose '\n' := by
  refine isLoose_of_run .newline (fun _ => Iff.rfl) (by decide)
    (show Initial.of '\n' = .newline by decide) ?_
  intro other word hinitial hother
  cases other <;> cases hinitial
  exact hother.2

/-- Letters are loose: what is left of a boolean is a run of letters, too. -/
theorem isLoose_of_isAlpha {c : Char} (hc : c.isAlpha = true) : IsLoose c := by
  refine isLoose_of_run .identifier (fun _ => Iff.rfl) (by decide) (Initial.of_isAlpha hc) ?_
  intro other word hinitial hother
  cases other <;> cases hinitial
  · exact Rule.isAlpha_of_spells_boolean hother
  · exact hother.2

/-- The characters of operators are loose, except in the slash, which may begin a comment, and in
the two dots, of which one alone is nothing. -/
theorem isLoose_of_mem_operator {op : Operator} {c : Char} (hc : c ∈ op.spelling)
    (hslash : op ≠ .slash) (hdots : op ≠ .dotDot) : IsLoose c := by
  -- three facts on the table of operators, which are closed and so can be checked
  have hmarks : ∀ c ∈ op.spelling, (Initial.of c == .mark) = true :=
    Operator.forall_mem_spelling (by decide) op
  have hslashes : ∀ op ∈ Operator.all, op ≠ .slash → '/' ∉ op.spelling := by decide +kernel
  have htails : ∀ op ∈ Operator.all, op ≠ .slash → op ≠ .dotDot → ∀ other ∈ Operator.all,
      other.spelling.head?.any op.spelling.contains = true → other.spelling.tail = [] ∨
        ∃ last ∈ Operator.all, last.spelling = other.spelling.tail := by
    decide +kernel
  intro rule tail hrule
  have hinitial := Rule.initial_eq_of_spells hrule.1
  rw [beq_iff_eq.1 (hmarks c hc)] at hinitial
  cases rule <;> simp [Rule.initial] at hinitial
  · obtain ⟨body, hbody, _⟩ := hrule.1
    rw [(List.cons.inj hbody).1] at hc
    exact absurd hc (hslashes op (Operator.mem_all op) hslash)
  · next other =>
    have hword : c :: tail = other.spelling := hrule.1
    have hhead : other.spelling.head?.any op.spelling.contains = true := by
      rw [← hword, List.head?_cons, Option.any_some, List.contains_iff_mem]
      exact hc
    have hother := htails op (Operator.mem_all op) hslash hdots other (Operator.mem_all other) hhead
    rw [← hword, List.tail_cons] at hother
    rcases hother with hnil | ⟨last, _, hlast⟩
    · exact Or.inl hnil
    · exact Or.inr ⟨.operator last, hlast.symm, by simp⟩

/-! ## What follows a committed lexeme -/

/-- A text that can be cut can be cut from its first newline on, because no piece reaches over a
newline from before it. -/
theorem dropWhile_newline {text : List Char} (h : IsSegmentable text) :
    IsSegmentable (text.dropWhile (· != '\n')) := by
  obtain ⟨pieces, rfl, hpieces⟩ := h
  induction pieces with
  | nil => exact nil
  | cons piece pieces ih =>
    have htail : ∀ other ∈ pieces, ∃ rule : Rule, rule.Accepts other := fun other hother =>
      hpieces other (List.mem_cons_of_mem piece hother)
    obtain ⟨rule, hrule⟩ := hpieces piece List.mem_cons_self
    have hcount := Rule.count_newline_of_spells hrule.1
    rw [List.flatten_cons]
    by_cases hnewline : rule = .newline
    · -- the piece is the newline run itself
      subst hnewline
      obtain ⟨c, tail, rfl⟩ := List.exists_cons_of_ne_nil (Rule.ne_nil_of_spells hrule.1)
      have hc : c = '\n' := beq_iff_eq.1 (hrule.1.2 c List.mem_cons_self)
      rw [List.cons_append, List.dropWhile_cons_of_neg (by simp [hc])]
      exact append hrule ⟨pieces, rfl, htail⟩
    · rw [if_neg hnewline, List.count_eq_zero] at hcount
      have hpiece : ∀ c ∈ piece, (c != '\n') = true := by
        intro c hc
        rw [bne_iff_ne]
        rintro rfl
        exact hcount hc
      rw [List.dropWhile_append_of_pos hpiece]
      exact ih htail

/-- No piece starts with a digit. -/
theorem not_cons_digit {c : Char} {text : List Char} (hc : c.isDigit = true) :
    ¬ IsSegmentable (c :: text) := by
  intro h
  rcases h.cases with hnil | ⟨rule, piece, rest, hpiece, happend, _⟩
  · cases hnil
  · -- digits stand with the marks, but no comment and no operator starts with one
    obtain ⟨d, tail, rfl⟩ := List.exists_cons_of_ne_nil (Rule.ne_nil_of_spells hpiece.1)
    obtain rfl : d = c := (List.cons.inj happend).1
    have hinitial := Rule.initial_eq_of_spells hpiece.1
    rw [Initial.of_isDigit hc] at hinitial
    cases rule <;> simp [Rule.initial] at hinitial
    · obtain ⟨body, hbody, _⟩ := hpiece.1
      rw [(List.cons.inj hbody).1] at hc
      exact absurd hc (by decide)
    · next op =>
      have hnone : ∀ d ∈ op.spelling, (!d.isDigit) = true :=
        Operator.forall_mem_spelling (by decide) op
      have hmem : d ∈ op.spelling := by
        rw [← show d :: tail = op.spelling from hpiece.1]
        exact List.mem_cons_self
      have hdigit := hnone d hmem
      rw [hc] at hdigit
      cases hdigit

/-- A piece that starts with a point consists of two of them. -/
theorem not_cons_point {c : Char} {text : List Char} (hc : c ≠ '.') :
    ¬ IsSegmentable ('.' :: c :: text) := by
  intro h
  rcases h.cases with hnil | ⟨rule, piece, rest, hpiece, happend, _⟩
  · cases hnil
  · obtain ⟨d, tail, rfl⟩ := List.exists_cons_of_ne_nil (Rule.ne_nil_of_spells hpiece.1)
    rw [List.cons_append, List.cons.injEq] at happend
    obtain ⟨rfl, htail⟩ := happend
    have hinitial := Rule.initial_eq_of_spells hpiece.1
    rw [show Initial.of '.' = .mark by decide] at hinitial
    cases rule <;> simp [Rule.initial] at hinitial
    · obtain ⟨body, hbody, _⟩ := hpiece.1
      exact absurd (List.cons.inj hbody).1 (by decide)
    · next op =>
      have hword : '.' :: tail = op.spelling := hpiece.1
      cases op <;> simp [Operator.spelling] at hword
      rw [hword, List.cons_append, List.cons.injEq] at htail
      exact hc htail.1.symm

/-- A row of digits cannot be left in the middle: if what follows a part of it can be cut, the part
is the whole row. -/
theorem eq_of_digits {short long tail rest : List Char} (hlong : ∀ d ∈ long, d.isDigit = true)
    (hbegin : short <+: long) (happend : short ++ tail = long ++ rest)
    (htail : IsSegmentable tail) : short = long := by
  obtain ⟨others, rfl⟩ := hbegin
  cases others with
  | nil => exact (List.append_nil short).symm
  | cons d others =>
    rw [List.append_assoc, List.append_cancel_left_eq] at happend
    rw [happend, List.cons_append] at htail
    exact absurd htail (not_cons_digit (hlong d (by simp)))

/-- Where the scan takes an integer, every other cut takes the same one. -/
theorem eq_of_first?_integer {rule : Rule} {piece rest : List Char} {lexeme : Lexeme}
    (h : Lexeme.first? Rule.all (piece ++ rest) = some lexeme) (hpiece : rule.Accepts piece)
    (hrest : IsSegmentable rest) (hinteger : lexeme.rule = .integer) :
    rule = .integer ∧ piece = lexeme.text := by
  have hspells := Lexeme.spells_of_first? h
  have happend := Lexeme.append_of_first? h
  have hcases := Lexeme.eq_or_overrides_of_first? Rule.isOrder_all h hpiece.1
    (List.prefix_append piece rest)
  rw [hinteger] at hspells hcases
  rcases hcases with ⟨rfl, hle⟩ | hover
  · refine ⟨rfl, ?_⟩
    -- the piece could only stop among the digits, and then the next piece would start with one
    have hbegin := List.prefix_of_prefix_length_le (List.prefix_append piece rest)
      ⟨lexeme.rest, happend⟩ hle
    obtain ⟨whole, hwhole, hdigits⟩ := hspells
    obtain ⟨short, rfl, _⟩ := hpiece.1
    rw [hwhole] at hbegin happend ⊢
    rw [List.cons_append, List.cons_append, List.cons.injEq] at happend
    rw [eq_of_digits hdigits.isDigit (List.cons_prefix_cons.1 hbegin).2 happend.2.symm hrest]
  · cases rule <;> cases hover

/-- Where the scan takes a real, every other cut takes the same one. -/
theorem eq_of_first?_real {rule : Rule} {piece rest : List Char} {lexeme : Lexeme}
    (h : Lexeme.first? Rule.all (piece ++ rest) = some lexeme) (hpiece : rule.Accepts piece)
    (hrest : IsSegmentable rest) (hreal : lexeme.rule = .real) : piece = lexeme.text := by
  have hspells := Lexeme.spells_of_first? h
  have happend := Lexeme.append_of_first? h
  have hcases := Lexeme.eq_or_overrides_of_first? Rule.isOrder_all h hpiece.1
    (List.prefix_append piece rest)
  rw [hreal] at hspells hcases
  obtain ⟨whole, fraction, htext, hwhole, hfraction⟩ := hspells
  rw [htext] at happend hcases ⊢
  rcases hcases with ⟨rfl, hle⟩ | hover
  · -- another real: the points stand in the same place, so that only the fractions could differ
    obtain ⟨short, shortFraction, rfl, hshort, _⟩ := hpiece.1
    simp only [List.cons_append, List.append_assoc, List.cons.injEq, true_and] at happend
    have hcut := Rule.whole?_append_point hwhole (fraction ++ lexeme.rest)
    rw [happend, Rule.whole?_append_point hshort] at hcut
    simp only [Option.some.injEq, Prod.mk.injEq, List.cons.injEq, true_and] at hcut
    obtain ⟨rfl, hfractions⟩ := hcut
    have hbegin : shortFraction <+: fraction := by
      refine List.prefix_of_prefix_length_le (List.prefix_append _ rest)
        ⟨lexeme.rest, hfractions.symm⟩ ?_
      simpa using hle
    rw [eq_of_digits hfraction.isDigit hbegin hfractions hrest]
  · -- an integer in front of the point: the point would have to start a piece
    obtain rfl : rule = .integer := by cases rule <;> first | rfl | cases hover
    obtain ⟨short, rfl, hshort⟩ := hpiece.1
    simp only [List.cons_append, List.append_assoc, List.cons.injEq, true_and] at happend
    have hbegin : short <+: whole := by
      have htake := prefix_takeWhile hshort.isDigit (List.prefix_append short rest)
      rw [← happend, List.takeWhile_append_of_pos hwhole.isDigit] at htake
      simpa using htake
    obtain rfl := eq_of_digits hwhole.isDigit hbegin happend.symm hrest
    rw [List.append_cancel_left_eq] at happend
    obtain ⟨d, others, rfl⟩ := List.exists_cons_of_ne_nil hfraction.ne_nil
    rw [← happend, List.cons_append] at hrest
    refine absurd hrest (not_cons_point ?_)
    rintro rfl
    exact absurd (hfraction.isDigit '.' List.mem_cons_self) (by decide)

/-- Two lexemes of one rule at the start of a text agree, if it is the rule of character literals
or of an operator. -/
theorem eq_of_spells {rule : Rule} {first second text : List Char}
    (hrule : rule = .char ∨ ∃ op, rule = .operator op) (hfirst : rule.Spells first)
    (hsecond : rule.Spells second) (hfirstText : first <+: text) (hsecondText : second <+: text) :
    first = second := by
  rcases hrule with rfl | ⟨op, rfl⟩
  · obtain ⟨tail, rfl⟩ := hfirstText
    obtain ⟨c, _, rfl | rfl⟩ := hfirst
    · obtain ⟨d, _, rfl | rfl⟩ := hsecond
      · simpa [eq_comm] using hsecondText
      · simp at hsecondText
    · obtain ⟨d, _, rfl | rfl⟩ := hsecond
      · simp at hsecondText
      · simpa [eq_comm] using hsecondText
  · rw [show first = op.spelling from hfirst, show second = op.spelling from hsecond]

/-- Where the scan takes a character literal, a slash or two dots, every other cut takes the same
lexeme, because these override no rule. -/
theorem eq_of_first?_fixed {rule : Rule} {piece rest : List Char} {lexeme : Lexeme}
    (h : Lexeme.first? Rule.all (piece ++ rest) = some lexeme) (hpiece : rule.Accepts piece)
    (hfixed : lexeme.rule = .char ∨ lexeme.rule = .operator .slash ∨
      lexeme.rule = .operator .dotDot) : piece = lexeme.text := by
  have hbegin : lexeme.text <+: piece ++ rest := ⟨lexeme.rest, Lexeme.append_of_first? h⟩
  have hover : lexeme.rule.overrides rule = false := by
    rcases hfixed with heq | heq | heq <;> rw [heq] <;> cases rule <;> rfl
  rcases Lexeme.eq_or_overrides_of_first? Rule.isOrder_all h hpiece.1
    (List.prefix_append piece rest) with ⟨rfl, -⟩ | hover'
  · refine eq_of_spells ?_ hpiece.1 (Lexeme.spells_of_first? h) (List.prefix_append piece rest)
      hbegin
    rcases hfixed with heq | heq | heq
    · exact Or.inl heq
    · exact Or.inr ⟨_, heq⟩
    · exact Or.inr ⟨_, heq⟩
  · rw [hover] at hover'
    cases hover'

/-! ## No dead ends -/

/-- Behind a lexeme of loose characters a text can still be cut. -/
theorem rest_of_isLoose {text : List Char} (h : IsSegmentable text) {lexeme : Lexeme}
    (hfirst : Lexeme.first? Rule.all text = some lexeme)
    (hloose : ∀ c ∈ lexeme.text, IsLoose c) : IsSegmentable lexeme.rest := by
  rw [← Lexeme.append_of_first? hfirst] at h
  exact h.of_append hloose

/-- Behind a comment a text can still be cut. -/
theorem rest_of_comment {text : List Char} (h : IsSegmentable text) {lexeme : Lexeme}
    (hfirst : Lexeme.first? Rule.all text = some lexeme) (hcomment : lexeme.rule = .comment) :
    IsSegmentable lexeme.rest := by
  have hcut := Lexeme.cut?_of_first? hfirst
  rw [hcomment, Rule.cut?] at hcut
  unfold Rule.cutComment? at hcut
  split at hcut
  · next body =>
    simp only [Option.some.injEq, Prod.mk.injEq] at hcut
    rw [← hcut.2]
    exact h.dropWhile_newline
  · cases hcut

/-- The lexeme that the scan takes is a piece of every cut that starts with a lexeme of it. -/
theorem of_first?_of_piece {text : List Char} (h : IsSegmentable text) {lexeme : Lexeme}
    (hfirst : Lexeme.first? Rule.all text = some lexeme)
    (hsame : ∀ (rule : Rule) (piece rest : List Char), rule.Accepts piece →
      piece ++ rest = text → IsSegmentable rest →
      piece = lexeme.text ∧ (lexeme.rule = .integer → rule = .integer)) :
    IsSegmentable lexeme.rest ∧ lexeme.rule.Accepts lexeme.text := by
  have happend := Lexeme.append_of_first? hfirst
  rcases h.cases with rfl | ⟨rule, piece, rest, hpiece, htext, hrest⟩
  · rw [Lexeme.first?_nil] at hfirst
    cases hfirst
  · obtain ⟨rfl, hinteger⟩ := hsame rule piece rest hpiece htext hrest
    rw [← htext, List.append_cancel_left_eq] at happend
    rw [happend]
    exact ⟨hrest, Lexeme.spells_of_first? hfirst, fun heq => hpiece.2 (hinteger heq)⟩

/-- **The scan commits to no dead end.** Behind the first lexeme of a text that can be cut, the text
can still be cut, and the lexeme itself is accepted. -/
theorem of_first? {text : List Char} (h : IsSegmentable text) {lexeme : Lexeme}
    (hfirst : Lexeme.first? Rule.all text = some lexeme) :
    IsSegmentable lexeme.rest ∧ lexeme.rule.Accepts lexeme.text := by
  have hspells := Lexeme.spells_of_first? hfirst
  by_cases hinteger : lexeme.rule = .integer
  · refine h.of_first?_of_piece hfirst ?_
    rintro rule piece rest hpiece rfl hrest
    have hsame := eq_of_first?_integer hfirst hpiece hrest hinteger
    exact ⟨hsame.2, fun _ => hsame.1⟩
  · -- no other rule refuses a lexeme, so only the rest is in question
    refine ⟨?_, hspells, fun heq => absurd heq hinteger⟩
    by_cases hfixed : lexeme.rule = .char ∨ lexeme.rule = .operator .slash ∨
        lexeme.rule = .operator .dotDot
    · refine (h.of_first?_of_piece hfirst ?_).1
      rintro rule piece rest hpiece rfl _
      exact ⟨eq_of_first?_fixed hfirst hpiece hfixed, fun heq => absurd heq hinteger⟩
    · rw [not_or, not_or] at hfixed
      cases hrule : lexeme.rule with
      | comment => exact h.rest_of_comment hfirst hrule
      | real =>
        refine (h.of_first?_of_piece hfirst ?_).1
        rintro rule piece rest hpiece rfl hrest
        exact ⟨eq_of_first?_real hfirst hpiece hrest hrule, fun heq => absurd heq hinteger⟩
      | whitespace =>
        rw [hrule] at hspells
        exact h.rest_of_isLoose hfirst fun c hc => isLoose_of_isBlank (hspells.2 c hc)
      | newline =>
        rw [hrule] at hspells
        refine h.rest_of_isLoose hfirst fun c hc => ?_
        rw [beq_iff_eq.1 (hspells.2 c hc)]
        exact isLoose_newline
      | identifier =>
        rw [hrule] at hspells
        exact h.rest_of_isLoose hfirst fun c hc => isLoose_of_isAlpha (hspells.2 c hc)
      | boolean =>
        rw [hrule] at hspells
        refine h.rest_of_isLoose hfirst fun c hc => isLoose_of_isAlpha ?_
        exact Rule.isAlpha_of_spells_boolean hspells c hc
      | operator op =>
        rw [hrule] at hspells hfixed
        refine h.rest_of_isLoose hfirst fun c hc => ?_
        rw [show lexeme.text = op.spelling from hspells] at hc
        exact isLoose_of_mem_operator hc (fun heq => hfixed.2.1 (by rw [heq]))
          (fun heq => hfixed.2.2 (by rw [heq]))
      | integer => exact absurd hrule hinteger
      | char => exact absurd hrule hfixed.1

/-- Unless the first lexeme of a text is refused, the text can be cut exactly if what follows this
lexeme can. -/
theorem iff_rest_of_first? {text : List Char} {lexeme : Lexeme}
    (hfirst : Lexeme.first? Rule.all text = some lexeme)
    (hread : lexeme.rule.read lexeme.text ≠ .refused) :
    IsSegmentable text ↔ IsSegmentable lexeme.rest := by
  constructor
  · intro h
    exact (h.of_first? hfirst).1
  · intro h
    have haccepts := (Rule.accepts_iff_read (Lexeme.spells_of_first? hfirst)).2 hread
    rw [← Lexeme.append_of_first? hfirst]
    exact h.append haccepts

/-- A text that can be cut has a first lexeme, if it is not empty. -/
theorem first?_ne_none {c : Char} {text : List Char} (h : IsSegmentable (c :: text)) :
    Lexeme.first? Rule.all (c :: text) ≠ none := by
  intro hnone
  rcases h.cases with hnil | ⟨rule, piece, rest, hpiece, happend, _⟩
  · cases hnil
  · have hbegin : piece <+: c :: text := ⟨rest, happend⟩
    exact (Lexeme.first?_eq_none_iff Rule.mem_all).1 hnone rule piece hbegin hpiece.1

end IsSegmentable

/-! ## Sources with tokens -/

/-- An error is not among tokens. -/
theorem not_exists_error_eq_map_ok (error : Error) :
    ¬ ∃ tokens : List Token, ([.error error] : List Item) = tokens.map .ok := by
  rintro ⟨tokens, htokens⟩
  cases tokens <;> simp at htokens

/-- From a point on all items are tokens exactly when the rest of the source can be cut. -/
theorem VariableTable.exists_itemsFrom_eq_iff (table : VariableTable) (text : List Char)
    (position : Position) :
    (∃ tokens : List Token, table.itemsFrom Rule.all ⟨text, position⟩ = tokens.map .ok) ↔
      IsSegmentable text := by
  -- both sides fail at an error, and pass to the rest of the text behind any other lexeme
  induction text using Scan.induction Rule.all generalizing position with
  | nil =>
    rw [itemsFrom_nil]
    exact ⟨fun _ => .nil, fun _ => ⟨[], rfl⟩⟩
  | noRule c text hnone =>
    rw [itemsFrom_of_none table hnone]
    exact ⟨fun h => absurd h (not_exists_error_eq_map_ok _), fun h => absurd hnone h.first?_ne_none⟩
  | refused c text lexeme hfirst hread =>
    rw [itemsFrom_of_refused table hfirst hread]
    refine ⟨fun h => absurd h (not_exists_error_eq_map_ok _), fun h => ?_⟩
    have haccepts := (h.of_first? hfirst).2
    exact absurd hread ((Rule.accepts_iff_read (Lexeme.spells_of_first? hfirst)).1 haccepts)
  | skipped c text lexeme hfirst hread ih =>
    rw [itemsFrom_of_skipped table hfirst hread, ih,
      IsSegmentable.iff_rest_of_first? hfirst (by simp [hread])]
  | content c text lexeme content hfirst hread ih =>
    rw [itemsFrom_of_content table hfirst hread,
      IsSegmentable.iff_rest_of_first? hfirst (by simp [hread]), ← ih]
    constructor
    · rintro ⟨tokens, htokens⟩
      cases tokens with
      | nil => cases htokens
      | cons token tokens => exact ⟨tokens, (List.cons.inj htokens).2⟩
    · rintro ⟨tokens, htokens⟩
      exact ⟨_ :: tokens, by rw [htokens, List.map_cons]⟩

/-- **The sources with tokens are exactly those that can be cut**, in whatever way, into pieces
that some rule accepts. -/
theorem VariableTable.exists_tokenize_eq_ok_iff (table : VariableTable) (source : String) :
    (∃ tokens, table.tokenize source = .ok tokens) ↔ IsSegmentable source.toList := by
  rw [← table.exists_itemsFrom_eq_iff source.toList Position.start]
  simp only [tokenize_eq, collect_eq_ok_iff, items_eq]
  rfl

end MiniPascal
