import MiniPascal.Proofs.Lexemes
import MiniPascal.Proofs.Separators

/-!
# Layout

The lexemes of a source may be laid out anew, with other blanks, newlines and comments between them.
Main statement: as long as lexemes are kept apart, the new source has tokens of the same kinds and
values, each where its lexeme has been put (`VariableTable.exists_tokenize_layout_eq_ok`).
-/

namespace MiniPascal

open Text

/-! ## Gaps to put between lexemes -/

/-- Blanks, tabs, newlines and comments, where every comment ends with its line. -/
inductive IsFiller : List Char → Prop where
  | nil : IsFiller []
  | separator {c : Char} {rest : List Char} (hc : isSeparator c = true) (hrest : IsFiller rest) :
      IsFiller (c :: rest)
  | comment {body rest : List Char} (hbody : '\n' ∉ body) (hrest : IsFiller rest) :
      IsFiller ('/' :: '/' :: (body ++ '\n' :: rest))

/-- The same, but at the end of a source, where the newline of the last comment may be missing. -/
inductive IsLastFiller : List Char → Prop where
  | closed {gap : List Char} (hgap : IsFiller gap) : IsLastFiller gap
  | unclosed {gap body : List Char} (hgap : IsFiller gap) (hbody : '\n' ∉ body) :
      IsLastFiller (gap ++ '/' :: '/' :: body)

/-- Gaps that may stand before, between and behind lexemes: there is one between any two lexemes,
and no lexeme touches a comment behind it. -/
structure IsSpacing (gaps lexemes : List (List Char)) : Prop where
  length_eq : gaps.length = lexemes.length + 1
  isFiller : ∀ gap ∈ gaps.dropLast, IsFiller gap
  isLastFiller : ∀ gap ∈ gaps.getLast?, IsLastFiller gap
  ne_nil : ∀ gap ∈ gaps.tail.dropLast, gap ≠ []
  isSeparator : ∀ gap ∈ gaps.tail, ∀ c ∈ gap.head?, isSeparator c = true

/-- Lexemes laid out with gaps before, between and behind them. -/
def layout : List (List Char) → List (List Char) → List Char
  | gap :: gaps, lexeme :: lexemes => gap ++ (lexeme ++ layout gaps lexemes)
  | gaps, _ => gaps.flatten

/-- The byte offsets of lexemes that are laid out from `start` on. -/
def layoutOffsets (start : Nat) : List (List Char) → List (List Char) → List Nat
  | gap :: gaps, lexeme :: lexemes =>
    (start + byteLength gap) ::
      layoutOffsets (start + byteLength gap + byteLength lexeme) gaps lexemes
  | _, _ => []

namespace IsSpacing

/-- Around no lexemes there is one gap. -/
theorem eq_singleton {gaps : List (List Char)} (h : IsSpacing gaps []) :
    ∃ gap, gaps = [gap] ∧ IsLastFiller gap := by
  obtain ⟨gap, rfl⟩ := List.length_eq_one_iff.1 h.length_eq
  exact ⟨gap, rfl, h.isLastFiller gap rfl⟩

/-- In front of a lexeme there is a gap, and behind it the rest is spaced and keeps apart from
it. -/
theorem eq_cons {gaps lexemes : List (List Char)} {lexeme : List Char}
    (h : IsSpacing gaps (lexeme :: lexemes)) :
    ∃ gap others, gaps = gap :: others ∧ IsFiller gap ∧ IsSpacing others lexemes ∧
      ∀ c ∈ (layout others lexemes).head?, MiniPascal.isSeparator c = true := by
  obtain ⟨hlength, hfiller, hlast, hne, hseparator⟩ := h
  obtain ⟨gap, next, others, rfl⟩ : ∃ gap next others, gaps = gap :: next :: others := by
    match gaps, hlength with
    | gap :: next :: others, _ => exact ⟨gap, next, others, rfl⟩
  have hnext : ∀ c ∈ next.head?, MiniPascal.isSeparator c = true :=
    hseparator next List.mem_cons_self
  refine ⟨gap, next :: others, rfl, hfiller gap List.mem_cons_self, ?_, ?_⟩
  · refine ⟨by simpa using hlength, ?_, ?_, ?_, ?_⟩
    · exact fun other hother => hfiller other (List.mem_cons_of_mem gap hother)
    · exact fun other hother => hlast other (by rwa [List.getLast?_cons_cons])
    · intro other hother
      refine hne other ?_
      cases others with
      | nil => cases hother
      | cons last others => exact List.mem_cons_of_mem next hother
    · exact fun other hother => hseparator other (List.mem_cons_of_mem next hother)
  · -- what follows the lexeme is the next gap, which is empty only at the very end
    cases lexemes with
    | nil =>
      obtain rfl : others = [] := by simpa using hlength
      simpa [layout] using hnext
    | cons lexeme lexemes =>
      cases others with
      | nil => simp at hlength
      | cons last others =>
        obtain ⟨c, tail, rfl⟩ := List.exists_cons_of_ne_nil (hne next List.mem_cons_self)
        simpa [layout] using hnext

end IsSpacing

/-! ## Gaps make no items -/

/-- A comment is cut off up to the newline or the end that follows it. -/
theorem Rule.cutComment?_append {body rest : List Char} (hbody : '\n' ∉ body)
    (hrest : ∀ c ∈ rest.head?, c = '\n') :
    cutComment? ('/' :: '/' :: (body ++ rest)) = some ('/' :: '/' :: body, rest) := by
  have hline : ∀ c ∈ body, (c != '\n') = true := by
    intro c hc
    rw [bne_iff_ne]
    rintro rfl
    exact hbody hc
  have hstop : ∀ c ∈ rest.head?, (c != '\n') = false := by
    intro c hc
    rw [hrest c hc]
    rfl
  rw [cutComment?, takeWhile_append_of_head? hline hstop, dropWhile_append_of_head? hline hstop]

namespace VariableTable

variable (table : VariableTable)

/-- A comment in front of a newline or the end makes no item. -/
theorem itemsFrom_append_comment {body : List Char} (hbody : '\n' ∉ body) (rest : List Char)
    (hrest : ∀ c ∈ rest.head?, c = '\n') (position : Position) :
    table.itemsFrom Rule.all ⟨'/' :: '/' :: (body ++ rest), position⟩ =
      table.itemsFrom Rule.all ⟨rest, position.after ('/' :: '/' :: body)⟩ := by
  have hcut : Rule.cut? .comment ('/' :: '/' :: (body ++ rest)) = some ('/' :: '/' :: body, rest) :=
    Rule.cutComment?_append hbody hrest
  rw [itemsFrom_of_skipped table (Lexeme.first?_of_makesToken_eq_false rfl hcut) rfl]

/-- Filler makes no item. -/
theorem itemsFrom_append_of_isFiller {gap : List Char} (hgap : IsFiller gap) (text : List Char)
    (position : Position) :
    table.itemsFrom Rule.all ⟨gap ++ text, position⟩ =
      table.itemsFrom Rule.all ⟨text, position.after gap⟩ := by
  induction hgap generalizing position with
  | nil => rfl
  | @separator c rest hc _ ih =>
    rw [List.cons_append, table.itemsFrom_cons_of_isSeparator hc, ih, ← Position.after_append]
    rfl
  | @comment body rest hbody _ ih =>
    have happend : ('/' :: '/' :: (body ++ '\n' :: rest)) ++ text =
        '/' :: '/' :: (body ++ '\n' :: (rest ++ text)) := by simp
    rw [happend, itemsFrom_append_comment table hbody _ (by simp),
      table.itemsFrom_cons_of_isSeparator (by decide), ih, ← Position.after_append,
      ← Position.after_append]
    simp

/-- Filler at the end of a source makes no item. -/
theorem itemsFrom_of_isLastFiller {gap : List Char} (hgap : IsLastFiller gap)
    (position : Position) : table.itemsFrom Rule.all ⟨gap, position⟩ = [] := by
  cases hgap with
  | closed hgap =>
    have hitems := table.itemsFrom_append_of_isFiller hgap [] position
    rwa [List.append_nil, itemsFrom_nil] at hitems
  | @unclosed gap body hgap hbody =>
    have hitems := table.itemsFrom_append_comment hbody [] (by simp) (position.after gap)
    rw [List.append_nil, itemsFrom_nil] at hitems
    rw [table.itemsFrom_append_of_isFiller hgap, hitems]

end VariableTable

/-! ## Lexemes of contents -/

/-- In some text a lexeme has been read as a content. -/
def Content.IsReadFrom (content : Content) (word : List Char) : Prop :=
  ∃ rule after, Lexeme.first? Rule.all (word ++ after) = some ⟨rule, word, after⟩ ∧
    rule.read word = .content content

/-- The slices of the tokens of a source are what their contents have been read from. -/
theorem Finding.forall₂_isReadFrom {source : String} {findings : List Finding} {point : Point}
    {table : VariableTable} {lexemes : List (List Char)}
    (h : Scan.all Rule.all (Point.start source.toList) = (findings, .finish point))
    (hlexemes : List.Forall₂ (fun span lexeme => slice? source.toList span.1 span.2 = some lexeme)
      (lexemeSpans (findings.map fun finding => finding.token table) (tokenEnds source)) lexemes) :
    List.Forall₂ Content.IsReadFrom (findings.map Finding.content) lexemes := by
  have hspans : lexemeSpans (findings.map fun finding => finding.token table) (tokenEnds source) =
      findings.map fun finding => (finding.position.offset, finding.next.position.offset) := by
    rw [tokenEnds, h, lexemeSpans, List.zipWith_map, List.zipWith_self]
    rfl
  rw [hspans, List.forall₂_map_left_iff] at hlexemes
  rw [List.forall₂_map_left_iff]
  have hread : ∀ finding ∈ findings, ∃ word, slice? source.toList finding.position.offset
      finding.next.position.offset = some word ∧ finding.content.IsReadFrom word := by
    intro finding hfinding
    have hmem : finding ∈ (Scan.all Rule.all (Point.start source.toList)).1 := by
      rw [h]
      exact hfinding
    obtain ⟨lexeme, hslice, -, hfirst, hread, -⟩ := exists_lexeme hmem
    exact ⟨lexeme.text, hslice, lexeme.rule, lexeme.rest, hfirst, hread⟩
  refine (List.forall₂_and_left findings lexemes |>.2 ⟨hread, hlexemes⟩).imp ?_
  rintro finding lexeme ⟨⟨word, hword, hcontent⟩, hlexeme⟩
  obtain rfl : word = lexeme := Option.some.inj (hword.symm.trans hlexeme)
  exact hcontent

/-! ## Sources laid out anew -/

/-- Lexemes of contents that are laid out with gaps make tokens with these contents, each where its
lexeme has been put. -/
theorem VariableTable.exists_itemsFrom_layout_eq (table : VariableTable) {contents : List Content}
    {lexemes : List (List Char)} (h : List.Forall₂ Content.IsReadFrom contents lexemes)
    {gaps : List (List Char)} (hgaps : IsSpacing gaps lexemes) (position : Position) :
    ∃ tokens : List Token,
      table.itemsFrom Rule.all ⟨layout gaps lexemes, position⟩ = tokens.map .ok ∧
        tokens.map Token.kind = contents.map Content.kind ∧
        tokens.map Token.value = contents.map (Content.value table) ∧
        (tokens.map fun token => token.position.offset) =
          layoutOffsets position.offset gaps lexemes := by
  induction h generalizing gaps position with
  | nil =>
    obtain ⟨gap, rfl, hgap⟩ := hgaps.eq_singleton
    have hlayout : layout [gap] [] = gap := List.append_nil gap
    refine ⟨[], ?_, rfl, rfl, rfl⟩
    rw [hlayout, table.itemsFrom_of_isLastFiller hgap, List.map_nil]
  | @cons content lexeme contents lexemes hcontent _ ih =>
    -- the gap is passed over, and the lexeme is taken again in front of its new neighbour
    obtain ⟨gap, others, rfl, hgap, hothers, hapart⟩ := hgaps.eq_cons
    obtain ⟨rule, after, hfirst, hread⟩ := hcontent
    have hagain := Lexeme.first?_of_separator hfirst (Rule.makesToken_of_read hread) hapart
    obtain ⟨tokens, hitems, hkinds, hvalues, hoffsets⟩ :=
      ih hothers ((position.after gap).after lexeme)
    refine ⟨⟨content.kind, content.value table, position.after gap⟩ :: tokens, ?_, ?_, ?_, ?_⟩
    · rw [layout, table.itemsFrom_append_of_isFiller hgap,
        itemsFrom_of_content table hagain hread, hitems, List.map_cons]
    · rw [List.map_cons, List.map_cons, hkinds]
    · rw [List.map_cons, List.map_cons, hvalues]
    · rw [List.map_cons, hoffsets]
      rfl

/-- **The layout of a source does not matter.** Its lexemes, put down again in order with other
blanks, newlines and comments between them, make tokens of the same kinds and values, each at the
offset where its lexeme has been put. -/
theorem VariableTable.exists_tokenize_layout_eq_ok {table : VariableTable} {source : String}
    {tokens : List Token} {gaps lexemes : List (List Char)}
    (h : table.tokenize source = .ok tokens)
    (hlexemes : List.Forall₂ (fun span lexeme => slice? source.toList span.1 span.2 = some lexeme)
      (lexemeSpans tokens (tokenEnds source)) lexemes)
    (hgaps : IsSpacing gaps lexemes) :
    ∃ others, table.tokenize (String.ofList (layout gaps lexemes)) = .ok others ∧
      others.map Token.kind = tokens.map Token.kind ∧
      others.map Token.value = tokens.map Token.value ∧
      (others.map fun token => token.position.offset) = layoutOffsets 0 gaps lexemes := by
  obtain ⟨findings, point, hscan, rfl⟩ := tokenize_eq_ok_iff.1 h
  obtain ⟨others, hitems, hkinds, hvalues, hoffsets⟩ :=
    table.exists_itemsFrom_layout_eq (Finding.forall₂_isReadFrom hscan hlexemes) hgaps
      Position.start
  refine ⟨others, ?_, ?_, ?_, hoffsets⟩
  · rw [tokenize_eq, items_eq, String.toList_ofList, Point.start, hitems, collect_eq_ok_iff]
  · rw [hkinds, List.map_map, List.map_map]
    rfl
  · rw [hvalues, List.map_map, List.map_map]
    rfl

/-- Lexemes that touch each other are put down with gaps of every kind. -/
theorem VariableTable.exists_tokenize_layout_of_touching_lexemes :
    (ofEntries []).tokenize "truex/'/'" = .ok
        [⟨.boolConst, .bool 1, ⟨1, 0⟩⟩, ⟨.identifier, .identifier (.placeholder "x"), ⟨1, 4⟩⟩,
          ⟨.operator .slash, .absent, ⟨1, 5⟩⟩, ⟨.charConst, .char (.quoted "'/'"), ⟨1, 6⟩⟩] ∧
      List.Forall₂
        (fun span lexeme => slice? "truex/'/'".toList span.1 span.2 = some lexeme)
        (lexemeSpans
          [⟨.boolConst, .bool 1, ⟨1, 0⟩⟩, ⟨.identifier, .identifier (.placeholder "x"), ⟨1, 4⟩⟩,
            ⟨.operator .slash, .absent, ⟨1, 5⟩⟩, ⟨.charConst, .char (.quoted "'/'"), ⟨1, 6⟩⟩]
          (tokenEnds "truex/'/'"))
        [['t', 'r', 'u', 'e'], ['x'], ['/'], ['\'', '/', '\'']] ∧
      IsSpacing [['/', '/', '\n'], [' '], ['\n', '/', '/', ' ', '\n'], ['\t'], [' ', '/', '/']]
        [['t', 'r', 'u', 'e'], ['x'], ['/'], ['\'', '/', '\'']] ∧
      ∃ others, (ofEntries []).tokenize (String.ofList (layout
          [['/', '/', '\n'], [' '], ['\n', '/', '/', ' ', '\n'], ['\t'], [' ', '/', '/']]
          [['t', 'r', 'u', 'e'], ['x'], ['/'], ['\'', '/', '\'']])) = .ok others ∧
        others.map Token.kind =
          [.boolConst, .identifier, .operator .slash, .charConst] ∧
        others.map Token.value =
          [.bool 1, .identifier (.placeholder "x"), .absent, .char (.quoted "'/'")] ∧
        (others.map fun token => token.position.offset) = [3, 8, 14, 16] := by
  have hgaps : IsSpacing
      [['/', '/', '\n'], [' '], ['\n', '/', '/', ' ', '\n'], ['\t'], [' ', '/', '/']]
      [['t', 'r', 'u', 'e'], ['x'], ['/'], ['\'', '/', '\'']] := by
    refine ⟨rfl, ?_, ?_, by decide, by simp [isSeparator, isBlank]⟩
    · have hcomment : IsFiller ('/' :: '/' :: ([] ++ '\n' :: [])) := .comment (by decide) .nil
      have hblank : IsFiller [' '] := .separator (by decide) .nil
      have hlines : IsFiller ('\n' :: '/' :: '/' :: ([' '] ++ '\n' :: [])) :=
        .separator (by decide) (.comment (by decide) .nil)
      have htab : IsFiller ['\t'] := .separator (by decide) .nil
      intro gap hgap
      simp only [List.dropLast_cons_cons, List.dropLast_singleton, List.mem_cons,
        List.not_mem_nil, or_false] at hgap
      rcases hgap with rfl | rfl | rfl | rfl
      exacts [hcomment, hblank, hlines, htab]
    · rintro gap ⟨⟩
      show IsLastFiller ([' '] ++ '/' :: '/' :: [])
      exact .unclosed (.separator (by decide) .nil) (by decide)
  have htokens : (ofEntries []).tokenize "truex/'/'" = .ok
      [⟨.boolConst, .bool 1, ⟨1, 0⟩⟩, ⟨.identifier, .identifier (.placeholder "x"), ⟨1, 4⟩⟩,
        ⟨.operator .slash, .absent, ⟨1, 5⟩⟩, ⟨.charConst, .char (.quoted "'/'"), ⟨1, 6⟩⟩] := by
    decide +kernel
  refine ⟨htokens, by decide +kernel, hgaps, ?_⟩
  exact exists_tokenize_layout_eq_ok htokens (by decide +kernel) hgaps

end MiniPascal
