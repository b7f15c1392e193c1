import Mathlib.Data.List.DropRight
import MiniPascal.Proofs.Failure
import MiniPascal.Proofs.Outcomes

/-!
# Excerpts of a source

A diagnostic shows the line of an error without its margin, and the caret moves to the left by the
width of the margin. There is always room for that, since no text that starts with a blank or a tab
is illegal (`IsIllegal.isBlank_eq_false`), so that an error stands behind the margin of its line
(`Diagnostic.exists_isShown`). Main statement: `CommandLine.run_shows_excerpt`, for all sources with
an error.
-/

namespace MiniPascal

open Text

/-! ## Margins and ends -/

namespace Text

/-- Blanks and tabs have one byte each. -/
theorem byteLength_eq_length {text : List Char} (h : ∀ c ∈ text, isBlank c = true) :
    byteLength text = text.length := by
  refine byteLength_eq_length_iff.2 fun c hc => ?_
  rcases isBlank_iff.1 (h c hc) with rfl | rfl <;> rfl

/-- White space is trimmed off the end of a text, and no more of it is left there. -/
theorem exists_trimEnd_append (text : List Char) :
    ∃ ending, trimEnd text ++ ending = text ∧ (∀ c ∈ ending, isWhiteSpace c = true) ∧
      ∀ c ∈ (trimEnd text).getLast?, isWhiteSpace c = false := by
  refine ⟨text.rtakeWhile isWhiteSpace, List.rdropWhile_append_rtakeWhile,
    fun c hc => List.mem_rtakeWhile_imp hc, ?_⟩
  rw [trimEnd, List.getLast?_reverse]
  exact eq_false_of_mem_head?_dropWhile

/-- White space behind a text that does not end in it is trimmed off. -/
theorem trimEnd_append {text ending : List Char}
    (hends : ∀ c ∈ text.getLast?, isWhiteSpace c = false)
    (hending : ∀ c ∈ ending, isWhiteSpace c = true) : trimEnd (text ++ ending) = text := by
  have hfront : ∀ c ∈ ending.reverse, isWhiteSpace c = true := fun c hc =>
    hending c (List.mem_reverse.1 hc)
  rw [← List.head?_reverse] at hends
  rw [trimEnd, List.reverse_append, dropWhile_append_of_head? hfront hends, List.reverse_reverse]

/-- No newline stands in a part of a line that does not end in white space. -/
theorem notMem_newline_of_mem_lines {text before part ending : List Char}
    (h : before ++ (part ++ ending) ∈ lines text)
    (hends : ∀ c ∈ part.getLast?, isWhiteSpace c = false) : '\n' ∉ part := by
  intro hmem
  obtain ⟨last, hlast⟩ : ∃ last, part.getLast? = some last :=
    ⟨_, List.getLast?_eq_some_getLast (List.ne_nil_of_mem hmem)⟩
  obtain ⟨init, rfl⟩ := List.getLast?_eq_some_iff.1 hlast
  have hwhite := hends last hlast
  rcases List.mem_append.1 hmem with hmem | hmem
  · -- such a newline would not be the last character of the line
    have hline : before ++ (init ++ [last] ++ ending) = before ++ init ++ last :: ending := by simp
    rw [hline] at h
    apply notMem_dropLast_of_mem_lines h
    rw [List.dropLast_append_cons]
    exact List.mem_append_left _ (List.mem_append_right _ hmem)
  · rw [← List.mem_singleton.1 hmem] at hwhite
    exact absurd hwhite (by decide)

end Text

/-! ## Errors behind the margin -/

/-- No text that starts with a blank or a tab is illegal. -/
theorem IsIllegal.isBlank_eq_false {c : Char} {tail : List Char} (h : IsIllegal (c :: tail)) :
    isBlank c = false := by
  cases h with
  | overflow _ hinteger _ =>
    obtain rfl := (List.cons_prefix_cons.1 hinteger.isPrefix).1
    rfl
  | other hinitial _ _ =>
    rw [← Bool.not_eq_true]
    exact fun hc => hinitial (mem_initials_of_isBlank hc)
  | _ => rfl

namespace Diagnostic

/-- The line of an error, found by its offset, falls into a margin of blanks and tabs, a part that
is shown, and white space at its end. The margin ends between characters and at or before the column
of the error, and behind it the error keeps its distance. -/
structure IsShown (source : String) (error : Error) (place : LineColumn)
    (margin shown ending : List Char) : Prop where
  lineAt?_eq : lineAt? source error.position.offset = some place
  isLine : ∃ earlier later, Text.lines source.toList = earlier ++ place.line.toList :: later ∧
    earlier.length + 1 = error.position.line ∧
    byteLength earlier.flatten + place.column = error.position.offset
  append_eq : margin ++ (shown ++ ending) = place.line.toList
  isBlank_margin : ∀ c ∈ margin, isBlank c = true
  isBlank_head? : ∀ c ∈ (shown ++ ending).head?, isBlank c = false
  isWhiteSpace_ending : ∀ c ∈ ending, isWhiteSpace c = true
  isWhiteSpace_getLast? : ∀ c ∈ shown.getLast?, isWhiteSpace c = false
  length_le : margin.length ≤ place.column
  dropBytes?_margin : dropBytes? margin.length place.line.toList = some (shown ++ ending)
  character : ∃ c rest, error.kind = .illegalCharacter c ∧
    dropBytes? (place.column - margin.length) (shown ++ ending) = some (c :: rest)

/-- The line of an error at an illegal text is divided at the end of its margin and where it is
trimmed. -/
theorem exists_isShown {source : String} {error : Error} {before tail : List Char} {c : Char}
    (hsource : source.toList = before ++ c :: tail) (hblank : isBlank c = false)
    (herror : error = .illegalCharacter c (Position.start.after before)) :
    ∃ place margin shown ending, IsShown source error place margin shown ending := by
  obtain ⟨earlier, start, rest, later, hlines, hbefore, hcount⟩ :=
    Text.exists_lines_eq before c tail
  rw [← hsource] at hlines
  obtain ⟨margin, inner, rfl, hmargin, hinner⟩ : ∃ margin inner, margin ++ inner = start ∧
      (∀ d ∈ margin, isBlank d = true) ∧ ∀ d ∈ inner.head?, isBlank d = false :=
    ⟨_, _, List.takeWhile_append_dropWhile, fun d hd => List.mem_takeWhile_imp hd,
      eq_false_of_mem_head?_dropWhile⟩
  obtain ⟨ending, htrim, hending, hends⟩ := exists_trimEnd_append (inner ++ c :: rest)
  have hcolumn : byteLength (margin ++ inner) = margin.length + byteLength inner := by
    rw [byteLength_append, byteLength_eq_length hmargin]
  have hoffset : byteLength earlier.flatten + byteLength (margin ++ inner) =
      error.position.offset := by
    rw [herror, ← byteLength_append, hbefore]
    exact (Nat.zero_add _).symm
  refine ⟨⟨String.ofList (margin ++ inner ++ c :: rest), byteLength (margin ++ inner)⟩, margin,
    trimEnd (inner ++ c :: rest), ending, ?_⟩
  constructor
  case lineAt?_eq =>
    rw [← hoffset]
    exact lineAt?_of_lines_eq hlines
  case isLine =>
    refine ⟨earlier, later, by rw [String.toList_ofList, hlines], ?_, hoffset⟩
    rw [herror, hcount]
    exact Nat.add_comm _ _
  case append_eq => rw [htrim, String.toList_ofList, List.append_assoc]
  case isBlank_margin => exact hmargin
  case isBlank_head? =>
    rw [htrim]
    cases inner with
    | nil =>
      intro d hd
      cases hd
      exact hblank
    | cons d inner => exact hinner
  case isWhiteSpace_ending => exact hending
  case isWhiteSpace_getLast? => exact hends
  case length_le =>
    rw [hcolumn]
    exact Nat.le_add_right _ _
  case dropBytes?_margin =>
    rw [htrim, String.toList_ofList, List.append_assoc, ← byteLength_eq_length hmargin]
    exact dropBytes?_byteLength_append _ _
  case character =>
    refine ⟨c, rest, by rw [herror]; rfl, ?_⟩
    rw [htrim, hcolumn, Nat.add_sub_cancel_left]
    exact dropBytes?_byteLength_append _ _

namespace IsShown

variable {source : String} {error : Error} {place : LineColumn} {margin shown ending : List Char}

/-- The margin is what an excerpt leaves out in front. -/
theorem marginWidth_eq (h : IsShown source error place margin shown ending) :
    marginWidth place.line.toList = margin.length := by
  rw [marginWidth, ← h.append_eq, takeWhile_append_of_head? h.isBlank_margin h.isBlank_head?]

/-- The caret fits if there are few enough dashes in front of it. -/
theorem fits_eq (h : IsShown source error place margin shown ending) :
    fits place = decide (place.column - margin.length < maxWidth) := by
  rw [fits, dashes, h.marginWidth_eq]
  rfl

/-- What is shown is what an excerpt leaves of the line. -/
theorem shownLine_eq (h : IsShown source error place margin shown ending) :
    shownLine place.line.toList = String.ofList shown := by
  rw [shownLine, ← h.append_eq, dropWhile_append_of_head? h.isBlank_margin h.isBlank_head?,
    trimEnd_append h.isWhiteSpace_getLast? h.isWhiteSpace_ending]

/-- No newline is shown. -/
theorem notMem_newline (h : IsShown source error place margin shown ending) : '\n' ∉ shown := by
  obtain ⟨earlier, later, hlines, -⟩ := h.isLine
  have hmem : margin ++ (shown ++ ending) ∈ Text.lines source.toList := by
    rw [h.append_eq, hlines]
    exact List.mem_append_right _ List.mem_cons_self
  exact notMem_newline_of_mem_lines hmem h.isWhiteSpace_getLast?

end IsShown

/-! ## Rows of an excerpt -/

/-- The three rows of an excerpt: a gutter as wide as the number of the line and one more, with a
bar behind it; the number and what is shown of the line; and the gutter again, with dashes up to the
caret. -/
def rows (number : Nat) (shown : List Char) (dashes : Nat) : List (List Char) :=
  let gutter := List.replicate ((digits number).length + 1) ' '
  [gutter ++ ['|'],
   digits number ++ ' ' :: '|' :: ' ' :: shown,
   gutter ++ '|' :: ' ' :: (List.replicate dashes '-' ++ ['^'])]

/-- The rows that are printed: all of them, or all but that of the caret if it does not fit. -/
def printedRows (number : Nat) (shown : List Char) (dashes : Nat) : List (List Char) :=
  if dashes < maxWidth then rows number shown dashes else (rows number shown dashes).dropLast

/-- A diagnostic has the rows that are printed behind the name of the error and that of the file. -/
theorem IsShown.lines_eq {source : String} {error : Error} {place : LineColumn}
    {margin shown ending : List Char} (h : IsShown source error place margin shown ending)
    (file : String) :
    lines error file source = headline error :: fileLine file ::
      (printedRows error.position.line shown (place.column - margin.length)).map String.ofList := by
  have hexcerpt : excerpt error.position.line place =
      (printedRows error.position.line shown (place.column - margin.length)).map
        String.ofList := by
    rw [excerpt, h.fits_eq, dashes, h.marginWidth_eq, h.shownLine_eq, printedRows]
    by_cases hfits : place.column - margin.length < maxWidth
    · simp [hfits, rows, row, naturalText, ← String.toList_inj]
    · simp [hfits, rows, row, naturalText, ← String.toList_inj]
  rw [← hexcerpt, lines, h.lineAt?_eq]
  rfl

/-- In each row the first bar stands behind as many characters as the number has digits, and one. -/
theorem exists_bar_of_mem_rows {number dashes : Nat} {shown row : List Char}
    (h : row ∈ rows number shown dashes) :
    ∃ before after, row = before ++ '|' :: after ∧ '|' ∉ before ∧
      before.length = (digits number).length + 1 := by
  have hgutter : '|' ∉ List.replicate ((digits number).length + 1) ' ' := by
    rw [List.mem_replicate]
    exact fun hmem => absurd hmem.2 (by decide)
  have hnumber : '|' ∉ digits number ++ [' '] := by
    rw [List.mem_append, not_or]
    exact ⟨notMem_digits (by decide) number, by decide⟩
  simp only [rows, List.mem_cons, List.not_mem_nil, or_false] at h
  rcases h with rfl | rfl | rfl
  · exact ⟨_, [], rfl, hgutter, List.length_replicate⟩
  · exact ⟨digits number ++ [' '], _, by rw [List.append_assoc]; rfl, hnumber, List.length_append⟩
  · exact ⟨_, _, rfl, hgutter, List.length_replicate⟩

/-- No newline stands in a row, if none is shown. -/
theorem notMem_of_mem_rows {number dashes : Nat} {shown row : List Char} (hshown : '\n' ∉ shown)
    (h : row ∈ rows number shown dashes) : '\n' ∉ row := by
  have hnumber : '\n' ∉ digits number := notMem_digits (by decide) number
  simp only [rows, List.mem_cons, List.not_mem_nil, or_false] at h
  rcases h with rfl | rfl | rfl <;> simp [List.mem_replicate, hnumber, hshown]

end Diagnostic

/-! ## Runs with an error -/

/-- A source whose tokenizing ends in an error has tokens and this error as its items, and the error
is the one of an illegal text in the source. -/
theorem VariableTable.exists_isIllegal_of_tokenize {table : VariableTable} {source : String}
    {error : Error} (h : table.tokenize source = .error error) :
    ∃ tokens before c tail, table.items source = (Course.mk tokens (some error)).items ∧
      source.toList = before ++ c :: tail ∧ IsIllegal (c :: tail) ∧
      error = .illegalCharacter c (Position.start.after before) := by
  have hitems := table.items_eq_course source
  rw [tokenize_eq, hitems, Course.collect_items] at h
  cases hending : (Scan.all Rule.all (Point.start source.toList)).2 with
  | finish stop =>
    rw [hending] at h
    cases h
  | failure cause c stop =>
    rw [hending] at h hitems
    cases h
    obtain ⟨⟨before, happend, hposition⟩, ⟨tail, hrest, hillegal⟩, -⟩ :=
      Scan.isIllegal_of_all hending
    rw [hrest] at happend hillegal
    refine ⟨_, before, c, tail, hitems, happend.symm, hillegal, ?_⟩
    rw [hposition]
    rfl

namespace CommandLine

/-- **A diagnostic shows where the error is.** If the source that the arguments name has an error,
the line of the error is found, its margin ends at or before the error, and behind the tokens, the
name of the error and the name of the file the output has three more lines: a gutter, the line with
its number but without its margin and its end, and dashes up to a caret under the error. The last of
them is missing only if the caret is too far to the right to be padded with dashes. -/
theorem run_shows_excerpt {read : String → Except ReadFailure ByteArray} {arguments : List String}
    {file source : String} {error : Error} (filter : LogFilter)
    (hsource : NamesSource read arguments file source)
    (herror : VariableTable.empty.tokenize source = .error error) :
    ∃ (tokens : List Token) (place : LineColumn) (margin shown ending : List Char),
      VariableTable.empty.items source = tokens.map .ok ++ [.error error] ∧
      Diagnostic.IsShown source error place margin shown ending ∧
      let dashes := place.column - margin.length
      let rows := Diagnostic.rows error.position.line shown dashes
      let printed := if dashes < Diagnostic.maxWidth then rows else rows.dropLast
      (∀ elapsed, (run arguments filter read).outputText elapsed =
        unlines (tokens.map Token.dump ++
          Diagnostic.headline error :: Diagnostic.fileLine file :: printed.map String.ofList)) ∧
      ∀ row ∈ rows, '\n' ∉ row ∧ ∃ before after, row = before ++ '|' :: after ∧ '|' ∉ before ∧
        before.length = (digits error.position.line).length + 1 := by
  obtain ⟨tokens, before, c, tail, hitems, happend, hillegal, hc⟩ :=
    VariableTable.exists_isIllegal_of_tokenize herror
  obtain ⟨place, margin, shown, ending, hshown⟩ :=
    Diagnostic.exists_isShown happend hillegal.isBlank_eq_false hc
  refine ⟨tokens, place, margin, shown, ending, hitems, hshown, ?_, fun row hrow => ⟨?_, ?_⟩⟩
  · intro elapsed
    rw [run_of_namesSource filter hsource, (runSource_of_failed filter hitems).2 elapsed,
      hshown.lines_eq]
    rfl
  · exact Diagnostic.notMem_of_mem_rows hshown.notMem_newline hrow
  · exact Diagnostic.exists_bar_of_mem_rows hrow

/-- A run on a file with an illegal character behind a margin, on a line that ends in white
space. -/
theorem run_shows_excerpt_of_margin :
    let source := "main \x7b\n \tx := @ ; \r\n\x7d"
    let error := Error.illegalCharacter '@' ⟨2, 14⟩
    NamesSource (fun _ => .ok source.toUTF8) ["demo.pas"] "demo.pas" source ∧
      VariableTable.empty.tokenize source = .error error ∧
      ∃ (tokens : List Token) (place : LineColumn) (margin shown ending : List Char),
        VariableTable.empty.items source = tokens.map .ok ++ [.error error] ∧
        Diagnostic.IsShown source error place margin shown ending ∧
        let dashes := place.column - margin.length
        let rows := Diagnostic.rows 2 shown dashes
        let printed := if dashes < Diagnostic.maxWidth then rows else rows.dropLast
        (∀ elapsed, (run ["demo.pas"] .off fun _ => .ok source.toUTF8).outputText elapsed =
          unlines (tokens.map Token.dump ++ Diagnostic.headline error ::
            Diagnostic.fileLine "demo.pas" :: printed.map String.ofList)) ∧
        ∀ row ∈ rows, '\n' ∉ row ∧ ∃ before after, row = before ++ '|' :: after ∧ '|' ∉ before ∧
          before.length = (digits 2).length + 1 := by
  intro source error
  have hsource : NamesSource (fun _ => .ok source.toUTF8) ["demo.pas"] "demo.pas" source :=
    ⟨rfl, rfl⟩
  have herror : VariableTable.empty.tokenize source = .error error := by decide +kernel
  exact ⟨hsource, herror, run_shows_excerpt _ hsource herror⟩

end CommandLine

end MiniPascal
