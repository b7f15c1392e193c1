import MiniPascal.Proofs.Lexemes

/-!
# Character literals

A character is written between apostrophes or behind a backslash. Such a literal takes its two or
three characters, whichever they are and whatever follows them. Main statement: both ways denote the
character between apostrophes, except that a backslash and `0` denote the code zero, and the text of
a character value that is no code is read as this value again (`Lexer.character_readsBack`).
-/

namespace MiniPascal

open Text

variable {σ η : Type}

/-! ## The two ways to write a character -/

/-- A way to write a character. -/
inductive CharForm where
  | apostrophes
  | backslash
  deriving DecidableEq

namespace CharForm

/-- A character as it is written. -/
def text : CharForm → Char → List Char
  | .apostrophes, c => ['\'', c, '\'']
  | .backslash, c => ['\\', c]

/-- What a written character denotes: itself between apostrophes, or the code zero for a backslash
and `0`. -/
def value : CharForm → Char → CharValue
  | .apostrophes, c => .quoted (String.ofList ['\'', c, '\''])
  | .backslash, c => if c = '0' then .code 0 else .quoted (String.ofList ['\'', c, '\''])

/-- Both ways denote the same, except for `0`. -/
theorem value_backslash_eq_iff {c : Char} :
    value .backslash c = value .apostrophes c ↔ c ≠ '0' := by
  by_cases hc : c = '0' <;> simp [value, hc]

/-- A written character denotes the code zero, or the character between apostrophes. -/
theorem value_eq_or (form : CharForm) (c : Char) :
    form.value c = .code 0 ∨ form.value c = value .apostrophes c := by
  cases form with
  | apostrophes => exact Or.inr rfl
  | backslash =>
    by_cases hc : c = '0'
    · exact Or.inl (if_pos hc)
    · exact Or.inr (value_backslash_eq_iff.2 hc)

/-- The value of a character literal is what its text denotes. -/
theorem ofLexeme_text (form : CharForm) (c : Char) :
    CharValue.ofLexeme (form.text c) = form.value c := by
  cases form with
  | apostrophes => rfl
  | backslash =>
    by_cases hc : c = '0'
    · subst hc
      rfl
    · simp [text, value, CharValue.ofLexeme, hc]

/-- A written character is cut off in front of any text. -/
theorem cut?_text_append (form : CharForm) {c : Char} (hc : c ≠ '\n') (rest : List Char) :
    Rule.cut? .char (form.text c ++ rest) = some (form.text c, rest) := by
  cases form <;> exact if_neg hc

/-- In front of any text a written character is the first lexeme. -/
theorem first?_text_append (form : CharForm) {c : Char} (hc : c ≠ '\n') (rest : List Char) :
    Lexeme.first? Rule.all (form.text c ++ rest) = some ⟨.char, form.text c, rest⟩ :=
  Lexeme.first?_of_cut? Rule.isOrder_all (form.cut?_text_append hc rest) (by decide)

/-- A written character is read as what it denotes. -/
theorem read_text (form : CharForm) (c : Char) :
    Rule.read .char (form.text c) = .content (.literal .charConst (.char (form.value c))) := by
  rw [Rule.read, ofLexeme_text]

/-- A source that is one written character has the token of it only. -/
theorem tokenize_text (table : SymbolTable σ η) (state : σ) (form : CharForm) {c : Char}
    (hc : c ≠ '\n') :
    ((tokenize table (String.ofList (form.text c))).run state).1 =
      .ok [⟨.charConst, .char (form.value c), Position.start⟩] := by
  have hfirst := form.first?_text_append hc []
  rw [List.append_nil, ← String.toList_ofList (l := form.text c)] at hfirst
  exact tokenize_eq_singleton table state hfirst rfl (by
    rw [String.toList_ofList]
    exact form.read_text c)

end CharForm

/-! ## Character tokens -/

/-- What denotes a character is a written character, no newline. -/
theorem Denotes.exists_of_charConst {table : VariableTable} {lexeme : List Char}
    {value : TokenValue} (h : Denotes table lexeme .charConst value) :
    ∃ (form : CharForm) (c : Char), c ≠ '\n' ∧ lexeme = form.text c ∧
      value = .char (form.value c) := by
  cases h with
  | zeroChar => exact ⟨.backslash, '0', by decide, rfl, rfl⟩
  | @escapedChar c hline hzero =>
    exact ⟨.backslash, c, hline, rfl, by rw [CharForm.value_backslash_eq_iff.2 hzero]; rfl⟩
  | @quotedChar c hline => exact ⟨.apostrophes, c, hline, rfl, rfl⟩

namespace Lexer

/-- **Characters are read as they are written.** A lexer that comes to a written character other
than a newline gives its token, whatever follows, and stands right behind it; both ways of writing
denote the same, except for `0`. Each character token of a run stands for such a text, its value is
the code zero or a character between apostrophes, and in the latter case the text of the value is
read as the same kind and value. -/
theorem character_readsBack (table : SymbolTable σ η) (state : σ) :
    (∀ (lexer : Lexer) (form : CharForm) (c : Char) (following : List Char) (position : Position),
      c ≠ '\n' → lexer.ComesTo (form.text c ++ following) position →
        lexer.Gives ⟨.charConst, .char (form.value c), position⟩
          ⟨following, position.after (form.text c)⟩) ∧
    (∀ c : Char, CharForm.value .backslash c = CharForm.value .apostrophes c ↔ c ≠ '0') ∧
    ∀ source : String, List.Forall₂
      (fun token stop => token.kind = .charConst → ∃ (form : CharForm) (c : Char), c ≠ '\n' ∧
        slice? source.toList token.position.offset stop = some (form.text c) ∧
        token.value = .char (form.value c) ∧
        (form.value c = .code 0 ∨ form.value c = .quoted (String.ofList ['\'', c, '\'']) ∧
          ((tokenize table token.value.text).run state).1 =
            .ok [⟨.charConst, token.value, Position.start⟩]))
      (((items table source).run state).1.filterMap Item.token?) (tokenEnds source) := by
  refine ⟨?_, fun c => CharForm.value_backslash_eq_iff, fun source => ?_⟩
  · intro lexer form c following position hc h
    exact h.gives (form.first?_text_append hc following) (form.read_text c)
  · refine (forall₂_isReadFrom table state source).imp ?_
    rintro token stop ⟨lexeme, hlexeme⟩ hkind
    have hdenotes := hlexeme.denotes (by rw [hkind]; decide) .empty
    rw [hkind] at hdenotes
    obtain ⟨form, c, hc, htext, hvalue⟩ := hdenotes.exists_of_charConst
    refine ⟨form, c, hc, by rw [hlexeme.slice_eq, htext], hvalue, ?_⟩
    rcases form.value_eq_or c with hcode | hquoted
    · exact Or.inl hcode
    · -- the text of the value is the character between apostrophes
      refine Or.inr ⟨hquoted, ?_⟩
      rw [hvalue, hquoted]
      exact CharForm.tokenize_text table state .apostrophes hc

/-- An apostrophe behind a backslash in front of what looks like another literal, a backslash
between apostrophes at the end of a source, and a character of four bytes behind a backslash. -/
theorem character_readsBack_of_apostrophe :
    (start "\\''a'").Gives ⟨.charConst, .char (.quoted "'''"), ⟨1, 0⟩⟩
        ⟨['\'', 'a', '\''], ⟨1, 2⟩⟩ ∧
      (start "'\\'").Gives ⟨.charConst, .char (.quoted "'\\'"), ⟨1, 0⟩⟩ ⟨[], ⟨1, 3⟩⟩ ∧
      ∃ (form : CharForm) (c : Char), c ≠ '\n' ∧
        slice? " \\😀".toList 1 6 = some (form.text c) ∧
        TokenValue.char (.quoted "'😀'") = .char (form.value c) ∧
        (form.value c = .code 0 ∨ form.value c = .quoted (String.ofList ['\'', c, '\'']) ∧
          ((tokenize VariableTable.symbols (TokenValue.char (.quoted "'😀'")).text).run .empty).1 =
            .ok [⟨.charConst, .char (.quoted "'😀'"), Position.start⟩]) := by
  obtain ⟨hgives, -, htokens⟩ := character_readsBack VariableTable.symbols .empty
  have hbackslash := hgives (start "\\''a'") .backslash '\'' ['\'', 'a', '\''] Position.start
    (by decide) (comesTo_start "\\''a'")
  have hapostrophes := hgives (start "'\\'") .apostrophes '\\' [] Position.start
    (by decide) (comesTo_start "'\\'")
  have hrun : ((items VariableTable.symbols " \\😀").run .empty).1.filterMap Item.token? =
      [⟨.charConst, .char (.quoted "'😀'"), ⟨1, 1⟩⟩] := by
    decide +kernel
  have hends : tokenEnds " \\😀" = [6] := by decide +kernel
  have hwide := htokens " \\😀"
  rw [hrun, hends, List.forall₂_cons] at hwide
  exact ⟨hbackslash, hapostrophes, hwide.1 rfl⟩

end Lexer

end MiniPascal
