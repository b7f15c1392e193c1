import MiniPascal.Proofs.Items
import MiniPascal.Proofs.Slice
import Mathlib.Data.List.Forall2

/-!
# Tokens and gaps tile a source

A source that has tokens is divided by them: every byte belongs to the lexeme of one token or to
one gap, gaps hold nothing but blanks, newlines and comments, and each lexeme denotes its token.
Main statement: `VariableTable.isTiling_of_tokenize_eq_ok`.
-/

namespace MiniPascal

open Text

/-! ## What lexemes denote -/

/-- A lexeme denotes a kind and a value of tokens, against a table of variables. -/
inductive Denotes (table : VariableTable) : List Char → TokenKind → TokenValue → Prop where
  | integer {digits : List Char} (hdigits : Numeral.IsWhole digits)
      (hmax : ofDigits digits ≤ maxInteger) :
      Denotes table ('#' :: digits) .numConst (.int (ofDigits digits))
  | real {whole fraction : List Char} (hwhole : Numeral.IsWhole whole)
      (hfraction : Numeral.IsFraction fraction) :
      Denotes table ('#' :: whole ++ '.' :: fraction) .realConst
        (.real (Binary64.ofDecimal whole fraction))
  | zeroChar : Denotes table ['\\', '0'] .charConst (.char (.code 0))
  | escapedChar {c : Char} (hline : c ≠ '\n') (hzero : c ≠ '0') :
      Denotes table ['\\', c] .charConst (.char (.quoted (String.ofList ['\'', c, '\''])))
  | quotedChar {c : Char} (hline : c ≠ '\n') :
      Denotes table ['\'', c, '\''] .charConst (.char (.quoted (String.ofList ['\'', c, '\''])))
  | trueWord : Denotes table ['t', 'r', 'u', 'e'] .boolConst (.bool 1)
  | falseWord : Denotes table ['f', 'a', 'l', 's', 'e'] .boolConst (.bool 0)
  | keyword (word : Keyword) : Denotes table word.spelling.toList (.keyword word) .absent
  | identifier {name : List Char} (hne : name ≠ []) (hletters : ∀ c ∈ name, c.isAlpha = true)
      (hboolean : name ≠ ['t', 'r', 'u', 'e'] ∧ name ≠ ['f', 'a', 'l', 's', 'e'])
      (hfree : ∀ word : Keyword, word.spelling ≠ String.ofList name) :
      Denotes table name .identifier (.identifier (table.entryFor (String.ofList name)))
  | operator (op : Operator) : Denotes table op.spelling (.operator op) .absent

/-- What a rule reads in a lexeme of its language is what the lexeme denotes, unless the lexeme is
a boolean and has been taken for an identifier. -/
theorem denotes_of_read (table : VariableTable) {rule : Rule} {lexeme : List Char}
    {content : Content} (hspells : rule.Spells lexeme)
    (hboolean : rule = .identifier → ¬ Rule.Spells .boolean lexeme)
    (hread : rule.read lexeme = .content content) :
    Denotes table lexeme content.kind (content.value table) := by
  cases rule with
  | whitespace => cases hread
  | newline => cases hread
  | comment => cases hread
  | integer =>
    obtain ⟨digits, rfl, hdigits⟩ := hspells
    rw [Rule.read, Rule.readInteger] at hread
    split at hread
    · next hmax =>
      cases hread
      exact .integer hdigits hmax
    · cases hread
  | real =>
    obtain ⟨whole, fraction, rfl, hwhole, hfraction⟩ := hspells
    rw [Rule.read_real hwhole hfraction] at hread
    cases hread
    exact .real hwhole hfraction
  | char =>
    cases hread
    obtain ⟨c, hline, rfl | rfl⟩ := hspells
    · by_cases hzero : c = '0'
      · rw [hzero]
        exact .zeroChar
      · have hvalue : CharValue.ofLexeme ['\\', c] =
            .quoted (String.ofList ['\'', c, '\'']) := by
          simp [CharValue.ofLexeme]
        rw [hvalue]
        exact .escapedChar hline hzero
    · exact .quotedChar hline
  | boolean =>
    cases hread
    rcases hspells with rfl | rfl
    · exact .trueWord
    · exact .falseWord
  | identifier =>
    rw [Rule.read, Rule.readWord] at hread
    split at hread
    · next word hword =>
      cases hread
      unfold Keyword.ofSpelling? at hword
      have hfound := List.find?_some hword
      have hspelling : word.spelling = String.ofList lexeme := beq_iff_eq.1 hfound
      rw [show lexeme = word.spelling.toList by rw [hspelling, String.toList_ofList]]
      exact .keyword word
    · next hnone =>
      cases hread
      refine .identifier hspells.1 hspells.2 (not_or.1 (hboolean rfl)) fun word hword => ?_
      have hne := List.find?_eq_none.1 hnone word (Keyword.mem_all word)
      exact hne (beq_iff_eq.2 hword)
  | operator op =>
    cases hread
    rw [show lexeme = op.spelling from hspells]
    exact .operator op

/-- What a lexeme denotes is read in it by a rule, and that is not the rule of identifiers if the
lexeme is a boolean. -/
theorem Denotes.exists_read {table : VariableTable} {lexeme : List Char} {kind : TokenKind}
    {value : TokenValue} (h : Denotes table lexeme kind value) :
    ∃ (rule : Rule) (content : Content), rule.Spells lexeme ∧
      (rule = .identifier → ¬ Rule.Spells .boolean lexeme) ∧
      rule.read lexeme = .content content ∧ content.kind = kind ∧ content.value table = value := by
  -- a rule other than that of identifiers is free of the condition on booleans
  have hother : ∀ rule : Rule, rule ≠ .identifier → rule = .identifier →
      ¬ Rule.Spells .boolean lexeme := fun _ hne heq => absurd heq hne
  cases h with
  | @integer digits hdigits hmax =>
    refine ⟨.integer, .literal .numConst (.int (ofDigits digits)), ⟨digits, rfl, hdigits⟩,
      hother _ (by decide), ?_, rfl, rfl⟩
    show Rule.readInteger digits = _
    rw [Rule.readInteger, if_pos hmax]
  | @real whole fraction hwhole hfraction =>
    refine ⟨.real, .literal .realConst (.real (Binary64.ofDecimal whole fraction)),
      ⟨whole, fraction, rfl, hwhole, hfraction⟩, hother _ (by decide), ?_, rfl, rfl⟩
    exact Rule.read_real hwhole hfraction
  | zeroChar => exact ⟨.char, _, ⟨'0', by decide, Or.inl rfl⟩, hother _ (by decide), rfl, rfl, rfl⟩
  | @escapedChar c hline hzero =>
    refine ⟨.char, _, ⟨c, hline, Or.inl rfl⟩, hother _ (by decide), rfl, rfl, ?_⟩
    simp [Content.value, CharValue.ofLexeme]
  | @quotedChar c hline =>
    exact ⟨.char, _, ⟨c, hline, Or.inr rfl⟩, hother _ (by decide), rfl, rfl, rfl⟩
  | trueWord => exact ⟨.boolean, _, Or.inl rfl, hother _ (by decide), rfl, rfl, rfl⟩
  | falseWord => exact ⟨.boolean, _, Or.inr rfl, hother _ (by decide), rfl, rfl, rfl⟩
  | keyword word =>
    have hwords : ∀ word ∈ Keyword.all, word.spelling.toList ≠ [] ∧
        word.spelling.toList.all Char.isAlpha = true ∧
        word.spelling.toList ≠ ['t', 'r', 'u', 'e'] ∧
        word.spelling.toList ≠ ['f', 'a', 'l', 's', 'e'] ∧
        Keyword.ofSpelling? word.spelling = some word := by
      decide +kernel
    obtain ⟨hne, hletters, htrue, hfalse, hfound⟩ := hwords word (Keyword.mem_all word)
    refine ⟨.identifier, .literal (.keyword word) .absent, ⟨hne, List.all_eq_true.1 hletters⟩,
      fun _ => not_or.2 ⟨htrue, hfalse⟩, ?_, rfl, rfl⟩
    rw [Rule.read, Rule.readWord, String.ofList_toList, hfound]
  | identifier hne hletters hboolean hfree =>
    refine ⟨.identifier, .name (String.ofList lexeme), ⟨hne, hletters⟩,
      fun _ => not_or.2 hboolean, ?_, rfl, rfl⟩
    have hnone : Keyword.ofSpelling? (String.ofList lexeme) = none :=
      List.find?_eq_none.2 fun word _ hword => hfree word (beq_iff_eq.1 hword)
    rw [Rule.read, Rule.readWord, hnone]
  | operator op => exact ⟨.operator op, _, rfl, hother _ (by simp), rfl, rfl, rfl⟩

/-- **A lexeme denotes one kind and one value only.** -/
theorem Denotes.unique {table : VariableTable} {lexeme : List Char} {kind kind' : TokenKind}
    {value value' : TokenValue} (h : Denotes table lexeme kind value)
    (h' : Denotes table lexeme kind' value') : kind = kind' ∧ value = value' := by
  obtain ⟨rule, content, hspells, hboolean, hread, rfl, rfl⟩ := h.exists_read
  obtain ⟨rule', content', hspells', hboolean', hread', rfl, rfl⟩ := h'.exists_read
  have hsame : rule = rule' := by
    rcases Rule.eq_or_overrides hspells hspells' List.prefix_rfl List.prefix_rfl with
      heq | hover | hover
    · exact heq
    · obtain ⟨rfl, hrule⟩ := Rule.eq_boolean_of_overrides hover hspells hspells'
      exact absurd hspells (hboolean' hrule)
    · obtain ⟨rfl, hrule⟩ := Rule.eq_boolean_of_overrides hover hspells' hspells
      exact absurd hspells' (hboolean hrule)
  rw [hsame, hread', Reading.content.injEq] at hread
  rw [hread]
  exact ⟨rfl, rfl⟩

/-! ## Gaps -/

/-- A text in front of `after` that means nothing: blanks and tabs, newlines, and comments that
reach up to a newline or the end. -/
inductive IsGap : List Char → List Char → Prop where
  | nil {after : List Char} : IsGap [] after
  | blanks {piece gap after : List Char} (hpiece : Rule.Spells .whitespace piece)
      (hgap : IsGap gap after) : IsGap (piece ++ gap) after
  | newlines {piece gap after : List Char} (hpiece : Rule.Spells .newline piece)
      (hgap : IsGap gap after) : IsGap (piece ++ gap) after
  | comment {piece gap after : List Char} (hpiece : Rule.Spells .comment piece)
      (hend : ∀ c ∈ (gap ++ after).head?, c = '\n') (hgap : IsGap gap after) :
      IsGap (piece ++ gap) after

/-- What follows a comment is a newline or nothing. -/
theorem Rule.head?_of_cutComment? {text taken rest : List Char}
    (h : cutComment? text = some (taken, rest)) : ∀ c ∈ rest.head?, c = '\n' := by
  unfold cutComment? at h
  split at h
  · next body =>
    simp only [Option.some.injEq, Prod.mk.injEq] at h
    intro c hc
    rw [← h.2] at hc
    simpa using eq_false_of_mem_head?_dropWhile c hc
  · cases h

/-- A lexeme that means nothing makes a longer gap of a gap behind it. -/
theorem IsGap.append_lexeme {gap after : List Char} {lexeme : Lexeme}
    (hcut : lexeme.rule.cut? (lexeme.text ++ (gap ++ after)) =
      some (lexeme.text, gap ++ after))
    (hread : lexeme.rule.read lexeme.text = .skipped) (hgap : IsGap gap after) :
    IsGap (lexeme.text ++ gap) after := by
  have hspells := ((Rule.cutsLongest lexeme.rule).isLongest hcut).mem
  have htoken := Rule.read_eq_skipped_iff.1 hread
  cases hrule : lexeme.rule with
  | whitespace =>
    rw [hrule] at hspells
    exact .blanks hspells hgap
  | newline =>
    rw [hrule] at hspells
    exact .newlines hspells hgap
  | comment =>
    rw [hrule] at hspells hcut
    exact .comment hspells (Rule.head?_of_cutComment? hcut) hgap
  | _ =>
    rw [hrule] at htoken
    cases htoken

/-! ## The tiling of a source -/

/-- From byte `start` on a text is tiled by gaps and by the lexemes of tokens, which end where the
last list says. -/
inductive Tiles (table : VariableTable) : Nat → List Char → List Token → List Nat → Prop where
  | last {start : Nat} {gap : List Char} (hgap : IsGap gap []) : Tiles table start gap [] []
  | token {start stop : Nat} {gap lexeme rest : List Char} {token : Token} {tokens : List Token}
      {ends : List Nat} (hgap : IsGap gap (lexeme ++ rest)) (hne : lexeme ≠ [])
      (hdenotes : Denotes table lexeme token.kind token.value)
      (hoffset : token.position.offset = start + byteLength gap)
      (hstop : stop = token.position.offset + byteLength lexeme)
      (hrest : Tiles table stop rest tokens ends) :
      Tiles table start (gap ++ (lexeme ++ rest)) (token :: tokens) (stop :: ends)

/-- A lexeme that means nothing belongs to the first gap. -/
theorem Tiles.append_lexeme {table : VariableTable} {start : Nat} {tokens : List Token}
    {ends : List Nat} {lexeme : Lexeme}
    (hcut : lexeme.rule.cut? (lexeme.text ++ lexeme.rest) = some (lexeme.text, lexeme.rest))
    (hread : lexeme.rule.read lexeme.text = .skipped)
    (h : Tiles table (start + byteLength lexeme.text) lexeme.rest tokens ends) :
    Tiles table start (lexeme.text ++ lexeme.rest) tokens ends := by
  -- the first gap is part of an index, so the rest has to become a variable for the case analysis
  generalize hrest : lexeme.rest = rest at h hcut
  cases h with
  | last hgap =>
    refine .last (IsGap.append_lexeme ?_ hread hgap)
    rwa [List.append_nil]
  | token hgap hne hdenotes hoffset hstop htail =>
    rw [← List.append_assoc]
    refine .token (IsGap.append_lexeme hcut hread hgap) hne hdenotes ?_ hstop htail
    rw [hoffset, byteLength_append, Nat.add_assoc]

/-- A boolean is not taken for an identifier. -/
theorem Lexeme.not_spells_boolean {text : List Char} {lexeme : Lexeme}
    (h : first? Rule.all text = some lexeme) (hrule : lexeme.rule = .identifier) :
    ¬ Rule.Spells .boolean lexeme.text := by
  have hnone : Rule.cut? .boolean text = none :=
    cut?_eq_none_of_overrides Rule.isOrder_all h (by rw [hrule]; rfl)
  have hbegin : lexeme.text <+: text := ⟨lexeme.rest, append_of_first? h⟩
  exact (Rule.cutsLongest .boolean).eq_none_iff.1 hnone lexeme.text hbegin

/-- A scan that is finished has tiled its text, and stands behind it. -/
theorem tiles_of_all_eq (table : VariableTable) {text : List Char} {position : Position}
    {findings : List Finding} {point : Point}
    (h : Scan.all Rule.all ⟨text, position⟩ = (findings, .finish point)) :
    Tiles table position.offset text (findings.map fun finding => finding.token table)
        (findings.map fun finding => finding.next.position.offset) ∧
      point.position = position.after text := by
  induction text using Scan.induction Rule.all generalizing position findings with
  | nil =>
    rw [Scan.all_nil] at h
    cases h
    exact ⟨.last .nil, rfl⟩
  | noRule c text hnone =>
    rw [Scan.all_of_none hnone] at h
    cases h
  | refused c text lexeme hfirst hread =>
    rw [Scan.all_of_refused hfirst hread] at h
    cases h
  | skipped c text lexeme hfirst hread ih =>
    rw [Scan.all_of_skipped hfirst hread] at h
    obtain ⟨htiles, hpoint⟩ := ih h
    have hcut := Lexeme.cut?_of_first? hfirst
    rw [← Lexeme.append_of_first? hfirst] at hcut ⊢
    rw [Position.after_append]
    exact ⟨htiles.append_lexeme hcut hread, hpoint⟩
  | content c text lexeme content hfirst hread ih =>
    rw [Scan.all_of_content hfirst hread] at h
    simp only [Prod.mk.injEq] at h
    obtain ⟨rfl, hfinish⟩ := h
    obtain ⟨htiles, hpoint⟩ := ih (Prod.ext rfl hfinish)
    have hspells := Lexeme.spells_of_first? hfirst
    have hne := Rule.ne_nil_of_spells hspells
    have hdenotes := denotes_of_read table hspells (Lexeme.not_spells_boolean hfirst) hread
    rw [← Lexeme.append_of_first? hfirst, Position.after_append]
    refine ⟨?_, hpoint⟩
    -- the token stands right at the start, behind an empty gap
    show Tiles table position.offset ([] ++ (lexeme.text ++ lexeme.rest)) _ _
    exact .token .nil hne hdenotes rfl rfl htiles

/-! ## Spans of bytes -/

/-- The spans of the lexemes of tokens, from the offset of each to its end. -/
def lexemeSpans (tokens : List Token) (ends : List Nat) : List (Nat × Nat) :=
  List.zipWith (fun token stop => (token.position.offset, stop)) tokens ends

/-- The spans of the gaps before, between and behind the given spans, from `start` to `stop`. -/
def gapSpans (start stop : Nat) : List (Nat × Nat) → List (Nat × Nat)
  | [] => [(start, stop)]
  | span :: spans => (start, span.1) :: gapSpans span.2 stop spans

/-- Whether a byte lies in a span. -/
def covers (byte : Nat) (span : Nat × Nat) : Bool :=
  span.1 ≤ byte && byte < span.2

/-- The tiles that cover a byte are counted span by span. -/
theorem countP_covers_cons (byte start stop : Nat) (span : Nat × Nat) (spans : List (Nat × Nat)) :
    (gapSpans start stop (span :: spans) ++ span :: spans).countP (covers byte) =
      (if covers byte (start, span.1) then 1 else 0) + (if covers byte span then 1 else 0) +
        (gapSpans span.2 stop spans ++ spans).countP (covers byte) := by
  rw [gapSpans, List.countP_append, List.countP_append, List.countP_cons, List.countP_cons]
  omega

/-- No byte before the start lies in a gap or a span, if none of them runs backwards. -/
theorem countP_covers_eq_zero {start stop byte : Nat} {spans : List (Nat × Nat)}
    (hgaps : ∀ gap ∈ gapSpans start stop spans, gap.1 ≤ gap.2)
    (hspans : ∀ span ∈ spans, span.1 < span.2) (hbyte : byte < start) :
    (gapSpans start stop spans ++ spans).countP (covers byte) = 0 := by
  induction spans generalizing start with
  | nil =>
    simp [gapSpans, covers]
    omega
  | cons span spans ih =>
    have hgap : start ≤ span.1 := hgaps (start, span.1) List.mem_cons_self
    have hspan := hspans span List.mem_cons_self
    have hgapsRest : ∀ gap ∈ gapSpans span.2 stop spans, gap.1 ≤ gap.2 := fun gap hgap =>
      hgaps gap (List.mem_cons_of_mem _ hgap)
    have hspansRest : ∀ other ∈ spans, other.1 < other.2 := fun other hother =>
      hspans other (List.mem_cons_of_mem _ hother)
    rw [countP_covers_cons, ih hgapsRest hspansRest (by omega), if_neg, if_neg]
    · simp [covers]
      omega
    · simp [covers]
      omega

/-- Every byte between start and stop lies in exactly one gap or span, if none of them runs
backwards. -/
theorem countP_covers_eq_one {start stop byte : Nat} {spans : List (Nat × Nat)}
    (hgaps : ∀ gap ∈ gapSpans start stop spans, gap.1 ≤ gap.2)
    (hspans : ∀ span ∈ spans, span.1 < span.2) (hstart : start ≤ byte) (hstop : byte < stop) :
    (gapSpans start stop spans ++ spans).countP (covers byte) = 1 := by
  induction spans generalizing start with
  | nil => simp [gapSpans, covers, hstart, hstop]
  | cons span spans ih =>
    have hspan := hspans span List.mem_cons_self
    have hgapsRest : ∀ gap ∈ gapSpans span.2 stop spans, gap.1 ≤ gap.2 := fun gap hgap =>
      hgaps gap (List.mem_cons_of_mem _ hgap)
    have hspansRest : ∀ other ∈ spans, other.1 < other.2 := fun other hother =>
      hspans other (List.mem_cons_of_mem _ hother)
    rw [countP_covers_cons]
    -- the byte lies behind the first span, or in front of it, or in it
    by_cases hbehind : span.2 ≤ byte
    · rw [ih hgapsRest hspansRest hbehind, if_neg, if_neg]
      · simp [covers]
        omega
      · simp [covers]
        omega
    · rw [countP_covers_eq_zero hgapsRest hspansRest (by omega)]
      by_cases hbefore : byte < span.1
      · rw [if_pos, if_neg]
        · simp [covers]
          omega
        · simp [covers, hstart, hbefore]
      · rw [if_neg, if_pos]
        · simp [covers]
          omega
        · simp [covers]
          omega

/-! ## Sources with tokens -/

/-- The tokens of a source and the ends of their lexemes tile it. -/
structure IsTiling (table : VariableTable) (source : List Char) (tokens : List Token)
    (ends : List Nat) : Prop where
  length_eq : ends.length = tokens.length
  lexeme_lt : ∀ span ∈ lexemeSpans tokens ends, span.1 < span.2
  gap_le : ∀ span ∈ gapSpans 0 (byteLength source) (lexemeSpans tokens ends), span.1 ≤ span.2
  isGap : ∀ span ∈ gapSpans 0 (byteLength source) (lexemeSpans tokens ends), ∃ gap after,
    slice? source span.1 span.2 = some gap ∧ dropBytes? span.2 source = some after ∧
      IsGap gap after
  denotes : List.Forall₂ (fun token stop => ∃ lexeme,
    slice? source token.position.offset stop = some lexeme ∧
      Denotes table lexeme token.kind token.value) tokens ends
  covered : ∀ byte < byteLength source,
    (gapSpans 0 (byteLength source) (lexemeSpans tokens ends) ++
      lexemeSpans tokens ends).countP (covers byte) = 1

namespace Tiles

variable {table : VariableTable} {start : Nat} {text : List Char} {tokens : List Token}
  {ends : List Nat}

/-- Every token has an end. -/
theorem length_eq (h : Tiles table start text tokens ends) : ends.length = tokens.length := by
  induction h with
  | last => rfl
  | token _ _ _ _ _ _ ih => rw [List.length_cons, List.length_cons, ih]

/-- No lexeme is empty. -/
theorem lexeme_lt (h : Tiles table start text tokens ends) :
    ∀ span ∈ lexemeSpans tokens ends, span.1 < span.2 := by
  induction h with
  | last => simp [lexemeSpans]
  | token _ hne _ _ hstop _ ih =>
    intro span hspan
    rw [lexemeSpans, List.zipWith_cons_cons] at hspan
    rcases List.mem_cons.1 hspan with rfl | hspan
    · have hpos := Nat.pos_of_ne_zero (mt byteLength_eq_zero_iff.1 hne)
      simp only [hstop]
      omega
    · exact ih span hspan

/-- Each gap is a slice of the source that means nothing where it stands. -/
theorem isGap (h : Tiles table start text tokens ends) (before : List Char)
    (hstart : byteLength before = start) :
    ∀ span ∈ gapSpans start (byteLength (before ++ text)) (lexemeSpans tokens ends),
      span.1 ≤ span.2 ∧ ∃ gap after, slice? (before ++ text) span.1 span.2 = some gap ∧
        dropBytes? span.2 (before ++ text) = some after ∧ IsGap gap after := by
  induction h generalizing before with
  | @last start gap hgap =>
    intro span hspan
    obtain rfl : span = (start, byteLength (before ++ gap)) := List.mem_singleton.1 hspan
    rw [byteLength_append, hstart]
    refine ⟨Nat.le_add_right _ _, gap, [], ?_, ?_, hgap⟩
    · exact slice?_eq_some_iff.2 ⟨before, [], by rw [List.append_nil], hstart, rfl⟩
    · refine dropBytes?_eq_some_iff.2 ⟨before ++ gap, List.append_nil _, ?_⟩
      rw [byteLength_append, hstart]
  | @token start stop gap lexeme rest token tokens ends hgap _ _ hoffset hstop _ ih =>
    intro span hspan
    have hshift : before ++ (gap ++ (lexeme ++ rest)) = before ++ gap ++ lexeme ++ rest := by
      simp only [List.append_assoc]
    rcases List.mem_cons.1 hspan with rfl | hspan
    · simp only
      rw [hoffset]
      refine ⟨Nat.le_add_right _ _, gap, lexeme ++ rest, ?_, ?_, hgap⟩
      · exact slice?_eq_some_iff.2 ⟨before, lexeme ++ rest, rfl, hstart, rfl⟩
      · refine dropBytes?_eq_some_iff.2 ⟨before ++ gap, List.append_assoc _ _ _, ?_⟩
        rw [byteLength_append, hstart]
    · rw [hshift] at hspan ⊢
      refine ih (before ++ gap ++ lexeme) ?_ span hspan
      rw [byteLength_append, byteLength_append, hstart, hstop, hoffset]

/-- Each lexeme is a slice of the source that denotes its token. -/
theorem denotes (h : Tiles table start text tokens ends) (before : List Char)
    (hstart : byteLength before = start) :
    List.Forall₂ (fun token stop => ∃ lexeme,
      slice? (before ++ text) token.position.offset stop = some lexeme ∧
        Denotes table lexeme token.kind token.value) tokens ends := by
  induction h generalizing before with
  | last => exact .nil
  | @token start stop gap lexeme rest token tokens ends _ _ hdenotes hoffset hstop _ ih =>
    have hshift : before ++ (gap ++ (lexeme ++ rest)) = before ++ gap ++ lexeme ++ rest := by
      simp only [List.append_assoc]
    have hbefore : byteLength (before ++ gap) = token.position.offset := by
      rw [byteLength_append, hstart, hoffset]
    rw [hshift]
    refine .cons ⟨lexeme, ?_, hdenotes⟩ (ih (before ++ gap ++ lexeme) ?_)
    · refine slice?_eq_some_iff.2 ⟨before ++ gap, rest, ?_, hbefore, hstop.symm⟩
      rw [List.append_assoc _ lexeme rest]
    · rw [byteLength_append, hbefore, hstop]

/-- A whole source that is tiled from its start on. -/
theorem isTiling (h : Tiles table 0 text tokens ends) : IsTiling table text tokens ends where
  length_eq := h.length_eq
  lexeme_lt := h.lexeme_lt
  gap_le span hspan := (h.isGap [] rfl span hspan).1
  isGap span hspan := (h.isGap [] rfl span hspan).2
  denotes := h.denotes [] rfl
  covered byte hbyte := by
    refine countP_covers_eq_one (fun span hspan => (h.isGap [] rfl span hspan).1) h.lexeme_lt
      (Nat.zero_le byte) hbyte

end Tiles

/-- The offsets behind the lexemes of the tokens of a source, in order. -/
def tokenEnds (source : String) : List Nat :=
  (Scan.all Rule.all (Point.start source.toList)).1.map fun finding =>
    finding.next.position.offset

namespace VariableTable

/-- **A source with tokens is tiled by their lexemes and the gaps between them**, and an iteration
that has delivered them stands at its end. -/
theorem isTiling_of_tokenize_eq_ok {table : VariableTable} {source : String}
    {tokens : List Token} (h : table.tokenize source = .ok tokens) :
    IsTiling table source.toList tokens (tokenEnds source) ∧
      (((Lexer.start source).rest symbols).run table).1.2.cursor.offset =
        byteLength source.toList := by
  obtain ⟨findings, point, hscan, rfl⟩ := tokenize_eq_ok_iff.1 h
  obtain ⟨htiles, hpoint⟩ := tiles_of_all_eq table hscan
  have hends : tokenEnds source = findings.map fun finding => finding.next.position.offset := by
    rw [tokenEnds, hscan]
  rw [hends]
  refine ⟨htiles.isTiling, ?_⟩
  have hrun := run_rest table (Lexer.start source) rfl
  have hcursor : (((Lexer.start source).rest symbols).run table).1.2.cursor.offset =
      (Scan.all Rule.all (Point.start source.toList)).2.point.position.offset := by
    rw [hrun]
    rfl
  rw [hcursor, hscan]
  show point.position.offset = _
  rw [hpoint]
  exact Nat.zero_add _

/-- A source with gaps of every kind, a real, and a slash in a character literal. -/
theorem isTiling_of_gaps_of_every_kind :
    (ofEntries [⟨"x", .var, some .int, some 4⟩]).tokenize "\tx := #2.5//'\n..'/' // end" = .ok
        [⟨.identifier, .identifier ⟨"x", .var, some .int, some 4⟩, ⟨1, 1⟩⟩,
          ⟨.operator .assignment, .absent, ⟨1, 3⟩⟩,
          ⟨.realConst, .real ⟨0x4004000000000000⟩, ⟨1, 6⟩⟩,
          ⟨.operator .dotDot, .absent, ⟨2, 14⟩⟩,
          ⟨.charConst, .char (.quoted "'/'"), ⟨2, 16⟩⟩] ∧
      IsTiling (ofEntries [⟨"x", .var, some .int, some 4⟩])
        "\tx := #2.5//'\n..'/' // end".toList
        [⟨.identifier, .identifier ⟨"x", .var, some .int, some 4⟩, ⟨1, 1⟩⟩,
          ⟨.operator .assignment, .absent, ⟨1, 3⟩⟩,
          ⟨.realConst, .real ⟨0x4004000000000000⟩, ⟨1, 6⟩⟩,
          ⟨.operator .dotDot, .absent, ⟨2, 14⟩⟩,
          ⟨.charConst, .char (.quoted "'/'"), ⟨2, 16⟩⟩]
        (tokenEnds "\tx := #2.5//'\n..'/' // end") ∧
      (((Lexer.start "\tx := #2.5//'\n..'/' // end").rest symbols).run
        (ofEntries [⟨"x", .var, some .int, some 4⟩])).1.2.cursor.offset = 26 := by
  have htokens : (ofEntries [⟨"x", .var, some .int, some 4⟩]).tokenize
      "\tx := #2.5//'\n..'/' // end" = .ok
        [⟨.identifier, .identifier ⟨"x", .var, some .int, some 4⟩, ⟨1, 1⟩⟩,
          ⟨.operator .assignment, .absent, ⟨1, 3⟩⟩,
          ⟨.realConst, .real ⟨0x4004000000000000⟩, ⟨1, 6⟩⟩,
          ⟨.operator .dotDot, .absent, ⟨2, 14⟩⟩,
          ⟨.charConst, .char (.quoted "'/'"), ⟨2, 16⟩⟩] := by
    decide +kernel
  obtain ⟨htiling, hcursor⟩ := isTiling_of_tokenize_eq_ok htokens
  refine ⟨htokens, htiling, ?_⟩
  rw [hcursor]
  decide +kernel

end VariableTable

end MiniPascal
