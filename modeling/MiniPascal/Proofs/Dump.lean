import MiniPascal.CommandLine.Basic
import MiniPascal.Proofs.DoubleText
import MiniPascal.Proofs.Resolution

/-!
# Token dumps

The tokens of a source carry values that fit their kinds, and the line of a token in a dump shows
all of it. Main statement: against one table of variables, a token of any source can be told from
its line, and a dump has one line for each token (`VariableTable.dump_faithful`).
-/

namespace MiniPascal

open Text

/-! ## Kinds and their values -/

/-- The values that tokens of a kind carry against a table of variables. -/
inductive TokenKind.Carries (table : VariableTable) : TokenKind → TokenValue → Prop where
  | integer {value : Nat} (hmax : value ≤ maxInteger) :
      Carries table .numConst (.int value)
  | real {value : Binary64} (hnumber : value.isNaN = false) (hsign : value.isNegative = false) :
      Carries table .realConst (.real value)
  | zeroChar : Carries table .charConst (.char (.code 0))
  | quotedChar {c : Char} (hline : c ≠ '\n') :
      Carries table .charConst (.char (.quoted (String.ofList ['\'', c, '\''])))
  | boolean {value : UInt8} (hvalue : value = 0 ∨ value = 1) :
      Carries table .boolConst (.bool value)
  | identifier {name : List Char} (hletters : ∀ c ∈ name, c.isAlpha = true) :
      Carries table .identifier (.identifier (table.entryFor (String.ofList name)))
  | operator (op : Operator) : Carries table (.operator op) .absent
  | keyword (word : Keyword) : Carries table (.keyword word) .absent

/-- What a lexeme denotes is carried. -/
theorem Denotes.carries {table : VariableTable} {lexeme : List Char} {kind : TokenKind}
    {value : TokenValue} (h : Denotes table lexeme kind value) : kind.Carries table value := by
  cases h with
  | integer _ hmax => exact .integer hmax
  | real =>
    obtain ⟨hnumber, hsign⟩ := Binary64.isNaN_nearest _ _
    exact .real hnumber hsign
  | zeroChar => exact .zeroChar
  | escapedChar hline => exact .quotedChar hline
  | quotedChar hline => exact .quotedChar hline
  | trueWord => exact .boolean (Or.inr rfl)
  | falseWord => exact .boolean (Or.inl rfl)
  | keyword word => exact .keyword word
  | identifier _ hletters => exact .identifier hletters
  | operator op => exact .operator op

/-- The tokens of a source carry what their kinds allow. -/
theorem VariableTable.carries_of_mem_items {table : VariableTable} {source : String} {token : Token}
    (h : .ok token ∈ table.items source) : token.kind.Carries table token.value := by
  obtain ⟨finding, hfinding, rfl⟩ := exists_finding_of_mem_items h
  obtain ⟨stop, lexeme, -, hfirst, hread, -⟩ := Scan.exists_leadsTo_of_mem_all hfinding
  exact (denotes_of_read table (Lexeme.spells_of_first? hfirst) (Lexeme.not_spells_boolean hfirst)
    hread).carries

/-- The name of the entry of an identifier is the one that has been resolved. -/
theorem VariableTable.name_entryFor (table : VariableTable) (name : List Char) :
    (table.entryFor (String.ofList name)).name.toList = name := by
  rw [(table.standsFor_entryFor _).name_eq, String.toList_ofList]

namespace TokenKind.Carries

variable {table : VariableTable} {kind : TokenKind} {value value' : TokenValue}

/-- A value has no newline in its text. -/
theorem newline_notMem_text (h : kind.Carries table value) : '\n' ∉ value.text.toList := by
  cases h with
  | integer => exact notMem_integerText rfl (by decide) _
  | @real value hnumber hsign =>
    show '\n' ∉ value.text.toList
    rw [Binary64.toList_text hnumber, hsign]
    exact Binary64.notMem_magnitudeText rfl (by decide) _
  | zeroChar => decide
  | @quotedChar c hline =>
    show '\n' ∉ (String.ofList ['\'', c, '\'']).toList
    rw [String.toList_ofList]
    simp [Ne.symm hline]
  | boolean hvalue => rcases hvalue with rfl | rfl <;> decide
  | @identifier name hletters =>
    show '\n' ∉ (table.entryFor _).name.toList
    rw [table.name_entryFor]
    exact fun hmem => absurd (hletters _ hmem) (by decide)
  | operator => decide
  | keyword => decide

/-- The code zero is written as one character, and a quoted character as three. -/
theorem code_text_ne (c : Char) :
    (CharValue.code 0).text ≠ (CharValue.quoted (String.ofList ['\'', c, '\''])).text := by
  intro h
  have hlength := congrArg (fun text => text.toList.length) h
  replace hlength : 1 = (String.ofList ['\'', c, '\'']).toList.length := hlength
  rw [String.toList_ofList] at hlength
  cases hlength

/-- Values of one kind can be told from their texts. -/
theorem eq_of_text_eq (h : kind.Carries table value) (h' : kind.Carries table value')
    (htext : value.text = value'.text) : value = value' := by
  cases h with
  | integer =>
    cases h' with
    | integer => exact congrArg TokenValue.int (integerText_injective htext)
  | real hnumber =>
    cases h' with
    | real hnumber' =>
      exact congrArg TokenValue.real (Binary64.text_injective hnumber hnumber' htext)
  | zeroChar =>
    cases h' with
    | zeroChar => rfl
    | quotedChar => exact absurd htext (code_text_ne _)
  | quotedChar =>
    cases h' with
    | zeroChar => exact absurd htext.symm (code_text_ne _)
    | quotedChar => exact congrArg (TokenValue.char ∘ CharValue.quoted) htext
  | boolean hvalue =>
    cases h' with
    | boolean hvalue' =>
      rcases hvalue with rfl | rfl <;> rcases hvalue' with rfl | rfl
      · rfl
      · exact absurd htext (by decide)
      · exact absurd htext (by decide)
      · rfl
  | @identifier name =>
    cases h' with
    | @identifier name' =>
      have hnames := congrArg String.toList htext
      replace hnames : (table.entryFor _).name.toList = (table.entryFor _).name.toList := hnames
      rw [table.name_entryFor, table.name_entryFor] at hnames
      rw [hnames]
  | operator =>
    cases h' with
    | operator => rfl
  | keyword =>
    cases h' with
    | keyword => rfl

/-- A value that its kind does not show has no text. -/
theorem text_eq_of_not_valued (h : kind.Carries table value) :
    (if valued.contains kind then value.text else "") = value.text := by
  cases h <;> rfl

/-- The literals are the tokens whose values have the name of a type. -/
theorem isSome_typeTag?_iff (h : kind.Carries table value) :
    value.typeTag?.isSome ↔ kind ∈ [.numConst, .realConst, .charConst, .boolConst] := by
  cases h <;> simp [TokenValue.typeTag?]

end TokenKind.Carries

/-! ## The line of a token -/

/-- The name of a kind is one word, and the kind can be found by it. -/
theorem TokenKind.ofName?_name (kind : TokenKind) :
    ofName? kind.name = some kind ∧ ' ' ∉ kind.name.toList ∧ '\n' ∉ kind.name.toList := by
  have hall : ∀ kind ∈ all, ofName? kind.name = some kind ∧ ' ' ∉ kind.name.toList ∧
      '\n' ∉ kind.name.toList := by
    decide +kernel
  exact hall kind kind.mem_all

namespace Token

variable {table : VariableTable} {first second token : Token}

/-- The line of a token shows position, kind and value. -/
theorem toList_dump (h : token.kind.Carries table token.value) : token.dump.toList =
    digits token.position.line ++ ':' :: (digits token.position.offset ++
      ' ' :: (token.kind.name.toList ++ ' ' :: ('(' :: token.value.text.toList ++ [')']))) := by
  rw [dump, isOneOf, h.text_eq_of_not_valued]
  simp [naturalText]

/-- A token can be told from its line. -/
theorem eq_of_dump_eq (hfirst : first.kind.Carries table first.value)
    (hsecond : second.kind.Carries table second.value) (h : first.dump = second.dump) :
    first = second := by
  obtain ⟨hname, hword, -⟩ := first.kind.ofName?_name
  obtain ⟨hname', hword', -⟩ := second.kind.ofName?_name
  have hlist := congrArg String.toList h
  rw [toList_dump hfirst, toList_dump hsecond] at hlist
  -- the line is taken apart from the left, at the colon and at two blanks
  obtain ⟨hline, hlist⟩ := eq_of_append_cons_eq (notMem_digits rfl _) (notMem_digits rfl _) hlist
  obtain ⟨hoffset, hlist⟩ := eq_of_append_cons_eq (notMem_digits rfl _) (notMem_digits rfl _) hlist
  obtain ⟨hkind, hlist⟩ := eq_of_append_cons_eq hword hword' hlist
  have htext := List.append_cancel_right (List.cons.inj hlist).2
  rw [String.toList_injective hkind, hname', Option.some.injEq] at hname
  obtain ⟨kind, value, line, offset⟩ := first
  obtain ⟨kind', value', line', offset'⟩ := second
  cases hname
  cases digits_injective hline
  cases digits_injective hoffset
  cases hfirst.eq_of_text_eq hsecond (String.toList_injective htext)
  rfl

/-- The line of a token is one line. -/
theorem newline_notMem_dump (h : token.kind.Carries table token.value) :
    '\n' ∉ token.dump.toList := by
  rw [toList_dump h]
  simp [notMem_digits, h.newline_notMem_text, token.kind.ofName?_name.2.2]

end Token

/-! ## Dumps of sources -/

/-- Texts without newlines that are put one below the other are the lines of what results. -/
theorem lines_unlines {texts : List String} (h : ∀ text ∈ texts, '\n' ∉ text.toList) :
    lines (unlines texts).toList = texts.map fun text => text.toList ++ ['\n'] := by
  induction texts with
  | nil => rfl
  | cons text texts ih =>
    have hcons : (unlines (text :: texts)).toList =
        text.toList ++ '\n' :: (unlines texts).toList := by
      simp [unlines]
    rw [hcons, lines_append_newline (h text List.mem_cons_self), List.map_cons,
      ih fun other hother => h other (List.mem_cons_of_mem text hother)]

namespace VariableTable

/-- **The dump of tokens is faithful.** Against one table of variables, tokens of any sources that
have the same line in a dump are equal. Every token carries a value that fits its kind, its line
shows this value, the value has the name of a type exactly if it is a literal, and there is one line
for each token. -/
theorem dump_faithful (table : VariableTable) :
    (∀ source source' first second, .ok first ∈ table.items source →
      .ok second ∈ table.items source' → first.dump = second.dump → first = second) ∧
    (∀ source token, .ok token ∈ table.items source →
      token.kind.Carries table token.value ∧
      token.dump = naturalText token.position.line ++ ":" ++ naturalText token.position.offset
        ++ " " ++ token.kind.name ++ " (" ++ token.value.text ++ ")" ∧
      (token.value.typeTag?.isSome ↔
        token.kind ∈ [.numConst, .realConst, .charConst, .boolConst]) ∧
      '\n' ∉ token.dump.toList) ∧
    ∀ source, lines (unlines (((table.items source).filterMap Item.token?).map
        Token.dump)).toList =
      ((table.items source).filterMap Item.token?).map fun token =>
        token.dump.toList ++ ['\n'] := by
  refine ⟨fun source source' first second hfirst hsecond => ?_, fun source token htoken => ?_,
    fun source => ?_⟩
  · exact Token.eq_of_dump_eq (carries_of_mem_items hfirst) (carries_of_mem_items hsecond)
  · have hcarries := carries_of_mem_items htoken
    refine ⟨hcarries, ?_, hcarries.isSome_typeTag?_iff, Token.newline_notMem_dump hcarries⟩
    rw [Token.dump, Token.isOneOf, hcarries.text_eq_of_not_valued]
  · rw [lines_unlines, List.map_map]
    · rfl
    · intro text htext
      obtain ⟨token, htoken, rfl⟩ := List.mem_map.1 htext
      obtain ⟨item, hitem, hsome⟩ := List.mem_filterMap.1 htoken
      cases item with
      | error error => cases hsome
      | ok token =>
        cases hsome
        exact Token.newline_notMem_dump (carries_of_mem_items hitem)

end VariableTable

end MiniPascal
