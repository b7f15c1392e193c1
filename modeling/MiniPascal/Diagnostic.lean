import MiniPascal.Error
import MiniPascal.Text.Blank
import MiniPascal.Text.Line

/-!
# Diagnostics

A diagnostic shows an error with the line of the source that it is in. Blanks and tabs at the start
of that line are left out, and so is white space at its end. A caret stands under the error; it is
placed by bytes, and it is missing where this would take too many dashes.
-/

namespace MiniPascal

namespace Diagnostic

/-- The first line: the name of the error, and its tip, or its text when it has no tip. -/
def headline (error : Error) : String :=
  "Error: " ++ error.kind.name ++ " (" ++ error.kind.tip?.getD error.message ++ ")"

/-- The line that names the file. -/
def fileLine (file : String) : String :=
  "-> " ++ file

/-- A row of one character. -/
def row (width : Nat) (c : Char) : String :=
  String.ofList (List.replicate width c)

/-- The number of characters in the margin at the start of a line. -/
def marginWidth (line : List Char) : Nat :=
  (line.takeWhile Text.isBlank).length

/-- A source line as it is shown: without its margin and without white space at its end. -/
def shownLine (line : List Char) : String :=
  String.ofList (Text.trimEnd (line.dropWhile Text.isBlank))

/-- The largest width to which a text can be padded. -/
def maxWidth : Nat :=
  65535

/-- The number of dashes in front of a caret under a column. -/
def dashes (place : Text.LineColumn) : Nat :=
  place.column - marginWidth place.line.toList

/-- A caret fits if it can be padded with its dashes. -/
def fits (place : Text.LineColumn) : Bool :=
  dashes place + 1 ≤ maxWidth

/-- The lines that show a source line with its number and a caret under a column. A caret that does
not fit is left out. -/
def excerpt (number : Nat) (place : Text.LineColumn) : List String :=
  let label := Text.naturalText number
  let gutter := row (label.length + 1) ' ' ++ "|"
  let source := label ++ " | " ++ shownLine place.line.toList
  if fits place then [gutter, source, gutter ++ " " ++ row (dashes place) '-' ++ "^"]
  else [gutter, source]

/-- The lines of the diagnostic of an error in a source that was read from a file. -/
def lines (error : Error) (file source : String) : List String :=
  [headline error, fileLine file] ++
    match Text.lineAt? source error.position.offset with
    | some place => excerpt error.position.line place
    | none => []

/-- The diagnostic of an error is complete unless its caret does not fit. -/
def isComplete (error : Error) (source : String) : Bool :=
  (Text.lineAt? source error.position.offset).all fits

end Diagnostic

end MiniPascal
