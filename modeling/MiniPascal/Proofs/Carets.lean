import MiniPascal.Proofs.Excerpt

/-!
# Places of carets

The caret of a diagnostic is placed by bytes, but on the line above it characters are counted, and
this line has lost the white space at its end. So the caret stands under the character of the error
exactly if all characters in front of it on its line have one byte, and if the line holds something
other than white space from it on. Each further byte in front of it moves the caret one place to the
right. Main statement: `CommandLine.run_placesCaret`, for all sources with an error.
-/

namespace MiniPascal

open Text

/-- A character is left when white space is trimmed off the end of a text exactly if, from it on,
the text holds something other than white space. -/
theorem Text.prefix_trimEnd_iff {before rest : List Char} {c : Char} :
    before ++ [c] <+: trimEnd (before ++ c :: rest) ↔ ∃ d ∈ c :: rest, isWhiteSpace d = false := by
  obtain ⟨ending, happend, hending, hlast⟩ := exists_trimEnd_append (before ++ c :: rest)
  constructor
  · rintro ⟨after, hafter⟩
    -- the last character that is left is no white space
    have hrest : c :: rest = c :: after ++ ending := by
      rw [← hafter, List.append_assoc, List.append_assoc] at happend
      exact (List.append_cancel_left happend).symm
    have hne : c :: after ≠ [] := List.cons_ne_nil c after
    refine ⟨_, hrest ▸ List.mem_append_left ending (List.getLast_mem hne), hlast _ ?_⟩
    rw [← hafter, List.append_assoc, List.singleton_append, List.getLast?_append_of_ne_nil _ hne]
    exact List.getLast?_eq_some_getLast hne
  · rintro ⟨d, hd, hwhite⟩
    have hnot : d ∉ ending := by
      intro hmem
      rw [hending d hmem] at hwhite
      cases hwhite
    rcases List.append_eq_append_iff.1 happend with ⟨between, -, rfl⟩ | ⟨between, htrim, hrest⟩
    · exact absurd (List.mem_append_right between hd) hnot
    · cases between with
      | nil =>
        rw [hrest] at hd
        exact absurd hd hnot
      | cons e between =>
        obtain ⟨rfl, -⟩ := List.cons.inj hrest
        exact ⟨between, by rw [htrim, List.append_assoc, List.singleton_append]⟩

/-- The error is at the character `c` of its line, which has `start` in front of it and `rest`
behind it. -/
structure Error.IsOnLine (error : Error) (source : String) (start : List Char) (c : Char)
    (rest : List Char) : Prop where
  kind_eq : error.kind = .illegalCharacter c
  isLine : ∃ earlier later, Text.lines source.toList = earlier ++ (start ++ c :: rest) :: later ∧
    earlier.length + 1 = error.position.line ∧
    byteLength earlier.flatten + byteLength start = error.position.offset

namespace Diagnostic

/-! ## Rows with a source line and a caret -/

/-- The caret at the end of one row stands under a character of another row, which has `before` in
front of it: this character is printed, and as many characters stand in front of the caret. -/
structure StandsUnder (caret printed before : List Char) (c : Char) : Prop where
  isPrinted : before ++ [c] <+: printed
  isUnder : ∃ front, caret = front ++ ['^'] ∧ '^' ∉ front ∧ front.length = before.length

/-- The error of a line that is shown is on this line, behind the margin and the characters over
whose bytes the caret moves. -/
theorem IsShown.exists_isOnLine {source : String} {error : Error} {place : LineColumn}
    {margin shown ending : List Char} (h : IsShown source error place margin shown ending) :
    ∃ inner c rest, error.IsOnLine source (margin ++ inner) c rest ∧
      (margin ++ inner).dropWhile isBlank = inner ∧
      byteLength inner = place.column - margin.length ∧ shown = trimEnd (inner ++ c :: rest) := by
  obtain ⟨c, rest, hkind, hdrop⟩ := h.character
  obtain ⟨inner, happend, hinner⟩ := dropBytes?_eq_some_iff.1 hdrop
  obtain ⟨earlier, later, hlines, hcount, hoffset⟩ := h.isLine
  have hhead : ∀ d ∈ inner.head?, isBlank d = false := by
    intro d hd
    apply h.isBlank_head?
    rw [← happend, List.head?_append, Option.mem_def.1 hd]
    rfl
  have hcolumn : byteLength (margin ++ inner) = place.column := by
    rw [byteLength_append, byteLength_eq_length h.isBlank_margin, hinner]
    exact Nat.add_sub_of_le h.length_le
  refine ⟨inner, c, rest, ⟨hkind, earlier, later, ?_, hcount, ?_⟩, ?_, hinner, ?_⟩
  · rw [hlines, ← h.append_eq, ← happend, List.append_assoc]
  · rw [hcolumn, hoffset]
  · exact dropWhile_append_of_head? h.isBlank_margin hhead
  · rw [happend, trimEnd_append h.isWhiteSpace_getLast? h.isWhiteSpace_ending]

/-- What stands in front of a source line in its row: the number of the line and a bar. -/
def lead (number : Nat) : List Char :=
  digits number ++ [' ', '|', ' ']

/-- The last row ends in its only caret. It stands as far behind the lead as there are dashes. -/
theorem exists_rows_eq (number : Nat) (shown : List Char) (dashes : Nat) :
    ∃ gutter front, rows number shown dashes = [gutter, lead number ++ shown, front ++ ['^']] ∧
      '^' ∉ front ∧ front.length = (lead number).length + dashes := by
  let gutter := List.replicate ((digits number).length + 1) ' ' ++ ['|']
  refine ⟨gutter, gutter ++ ' ' :: List.replicate dashes '-', ?_, ?_, ?_⟩
  · simp [rows, lead, gutter]
  · simp [gutter, List.mem_replicate]
  · simp only [gutter, lead, List.length_append, List.length_cons, List.length_nil,
      List.length_replicate]
    omega

/-- Where a caret stands to the right of a place by the bytes that a text has beyond its characters,
it stands under the character at this place exactly if there are no such bytes and the character is
printed. -/
theorem standsUnder_iff {front start before rest : List Char} {c : Char} (number : Nat)
    (hcaret : '^' ∉ front)
    (hfront : front.length + start.length = (lead number ++ before).length + byteLength start) :
    StandsUnder (front ++ ['^']) (lead number ++ trimEnd (before ++ c :: rest))
        (lead number ++ before) c ↔
      (∀ d ∈ start, d.utf8Size = 1) ∧ ∃ d ∈ c :: rest, isWhiteSpace d = false := by
  rw [← byteLength_eq_length_iff]
  constructor
  · rintro ⟨hprinted, front', heq, -, hlength⟩
    rw [← List.append_cancel_right heq] at hlength
    rw [List.append_assoc, List.prefix_append_right_inj] at hprinted
    exact ⟨by omega, prefix_trimEnd_iff.1 hprinted⟩
  · rintro ⟨hbytes, hrest⟩
    refine ⟨?_, front, rfl, hcaret, by omega⟩
    rw [List.append_assoc, List.prefix_append_right_inj]
    exact prefix_trimEnd_iff.2 hrest

end Diagnostic

namespace CommandLine

/-- **The caret stands under the error if bytes and characters agree.** If the source that the
arguments name has an error, the last two lines of the output show the line of the error and a
caret, which is missing only if it is too far to the right. For each character in front of the error
on its line, the caret stands to the right by the bytes that this character has beyond one. So it
stands under the character of the error exactly if all characters in front of it have one byte, and
if it is not trimmed off together with white space at the end of the line. -/
theorem run_placesCaret {read : String → Except ReadFailure ByteArray} {arguments : List String}
    {file source : String} {error : Error} (filter : LogFilter)
    (hsource : NamesSource read arguments file source)
    (herror : VariableTable.empty.tokenize source = .error error) :
    ∃ (above : List String) (printed caret start rest : List Char) (c : Char),
      (∀ elapsed, (run arguments filter read).outputText elapsed =
        unlines (above ++ String.ofList printed ::
          if byteLength (start.dropWhile isBlank) < Diagnostic.maxWidth then [String.ofList caret]
          else [])) ∧
      '\n' ∉ printed ∧ '\n' ∉ caret ∧ error.IsOnLine source start c rest ∧
      let before := Diagnostic.lead error.position.line ++ start.dropWhile isBlank
      (∃ front, caret = front ++ ['^'] ∧ '^' ∉ front ∧
        front.length + start.length = before.length + byteLength start) ∧
      (Diagnostic.StandsUnder caret printed before c ↔
        (∀ d ∈ start, d.utf8Size = 1) ∧ ∃ d ∈ c :: rest, isWhiteSpace d = false) := by
  obtain ⟨tokens, _, _, _, hitems, happend, hillegal, hcharacter⟩ :=
    VariableTable.exists_isIllegal_of_tokenize herror
  obtain ⟨place, margin, shown, ending, hshown⟩ :=
    Diagnostic.exists_isShown happend hillegal.isBlank_eq_false hcharacter
  obtain ⟨inner, c, rest, hline, hinner, hbytes, rfl⟩ := hshown.exists_isOnLine
  obtain ⟨gutter, front, hrows, hcaret, hfront⟩ := Diagnostic.exists_rows_eq error.position.line
    (trimEnd (inner ++ c :: rest)) (place.column - margin.length)
  have hnewline : ∀ row ∈ [gutter, Diagnostic.lead error.position.line ++
      trimEnd (inner ++ c :: rest), front ++ ['^']], '\n' ∉ row := by
    rw [← hrows]
    exact fun row => Diagnostic.notMem_of_mem_rows hshown.notMem_newline
  have hlength : front.length + (margin ++ inner).length =
      (Diagnostic.lead error.position.line ++ inner).length + byteLength (margin ++ inner) := by
    rw [byteLength_append, byteLength_eq_length hshown.isBlank_margin, hfront, ← hbytes,
      List.length_append, List.length_append]
    omega
  refine ⟨tokens.map Token.dump ++ [Diagnostic.headline error, Diagnostic.fileLine file,
    String.ofList gutter], _, front ++ ['^'], margin ++ inner, rest, c, fun elapsed => ?_,
    hnewline _ (.tail _ (.head _)), hnewline _ (.tail _ (.tail _ (.head _))), hline, ?_⟩
  · rw [run_of_namesSource filter hsource, (runSource_of_failed filter hitems).2 elapsed,
      hshown.lines_eq, Diagnostic.printedRows, hrows, hinner, hbytes, List.append_assoc]
    split <;> rfl
  · rw [hinner]
    exact ⟨⟨front, rfl, hcaret, hlength⟩, Diagnostic.standsUnder_iff _ hcaret hlength⟩

/-- A run on a file with an error on its second line, behind a margin and a wide character. -/
theorem run_placesCaret_behind_margin :
    let source := "main \x7b\n \t'é' @ ;\n\x7d"
    let error := Error.illegalCharacter '@' ⟨2, 14⟩
    NamesSource (fun _ => .ok source.toUTF8) ["demo.pas"] "demo.pas" source ∧
      VariableTable.empty.tokenize source = .error error ∧
      ∃ (above : List String) (printed caret start rest : List Char) (c : Char),
        (∀ elapsed, (run ["demo.pas"] .off fun _ => .ok source.toUTF8).outputText elapsed =
          unlines (above ++ String.ofList printed ::
            if byteLength (start.dropWhile isBlank) < Diagnostic.maxWidth then
              [String.ofList caret]
            else [])) ∧
        '\n' ∉ printed ∧ '\n' ∉ caret ∧ error.IsOnLine source start c rest ∧
        let before := Diagnostic.lead 2 ++ start.dropWhile isBlank
        (∃ front, caret = front ++ ['^'] ∧ '^' ∉ front ∧
          front.length + start.length = before.length + byteLength start) ∧
        (Diagnostic.StandsUnder caret printed before c ↔
          (∀ d ∈ start, d.utf8Size = 1) ∧ ∃ d ∈ c :: rest, isWhiteSpace d = false) := by
  intro source error
  have hsource : NamesSource (fun _ => .ok source.toUTF8) ["demo.pas"] "demo.pas" source :=
    ⟨rfl, rfl⟩
  have herror : VariableTable.empty.tokenize source = .error error := by decide +kernel
  exact ⟨hsource, herror, run_placesCaret _ hsource herror⟩

/-- Behind a wide character on its line, an error has the caret one place to its right. -/
theorem run_misplacesCaret :
    let source := "'é'@"
    let outcome := run ["demo.pas"] .off fun _ => .ok source.toUTF8
    NamesSource (fun _ => .ok source.toUTF8) ["demo.pas"] "demo.pas" source ∧
      VariableTable.empty.tokenize source = .error (.illegalCharacter '@' ⟨1, 4⟩) ∧
      outcome.output = ["1:0 CharConst ('é')",
        "Error: IllegalCharacter (illegal character '@' at line 1, offset 4)", "-> demo.pas", "  |",
        "1 | 'é'@", "  | ----^"].map .text ∧
      ¬ Diagnostic.StandsUnder "  | ----^".toList "1 | 'é'@".toList "1 | 'é'".toList '@' := by
  intro source outcome
  have hsource : NamesSource (fun _ => .ok source.toUTF8) ["demo.pas"] "demo.pas" source :=
    ⟨rfl, rfl⟩
  refine ⟨hsource, by decide +kernel, ?_, ?_⟩
  · rw [show outcome = _ from run_of_namesSource .off hsource]
    decide +kernel
  · rintro ⟨-, front, hcaret, -, hlength⟩
    -- nine characters end in the caret, but there would be only seven in front of it
    have hcount := congrArg List.length hcaret
    rw [List.length_append, hlength] at hcount
    exact absurd hcount (by decide)

end CommandLine

end MiniPascal
