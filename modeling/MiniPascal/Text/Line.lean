import MiniPascal.Text.Utf8

/-!
# Lines of a source

A source falls into lines, each of which keeps the newline that ends it; only the last one may
lack it. `lineAt?` finds the line that holds a byte of the source and the column of that byte.
-/

namespace MiniPascal.Text

/-! ## Splitting into lines -/

/-- The lines of a text, newlines kept, in order. -/
def lines : List Char → List (List Char)
  | [] => []
  | c :: rest =>
    if c = '\n' then [c] :: lines rest
    else match lines rest with
      | [] => [[c]]
      | first :: others => (c :: first) :: others

/-- The lines of a text are a division of it: nothing is lost and nothing is added. -/
theorem flatten_lines (text : List Char) : (lines text).flatten = text := by
  induction text with
  | nil => rfl
  | cons c rest ih =>
    unfold lines
    split
    · simp [ih]
    · cases h : lines rest with
      | nil => rw [h] at ih; simp [← ih]
      | cons first others => rw [h] at ih; simp [← ih]

/-- A line with its newline is the first line of a text. -/
theorem lines_append_newline {line : List Char} (h : '\n' ∉ line) (rest : List Char) :
    lines (line ++ '\n' :: rest) = (line ++ ['\n']) :: lines rest := by
  induction line with
  | nil => rfl
  | cons c line ih =>
    obtain ⟨hc, hline⟩ := not_or.1 (mt List.mem_cons.2 h)
    rw [List.cons_append, lines, if_neg (Ne.symm hc), ih hline]
    rfl

/-! ## The line of a byte -/

/-- A line of a source together with a column in it, counted in bytes from its start. -/
structure LineColumn where
  line : String
  column : Nat
  deriving DecidableEq

/-- Walks over `pieces` to the one that holds the byte `offset`. -/
def locate? : List (List Char) → Nat → Option LineColumn
  | [], _ => none
  | piece :: pieces, offset =>
    if offset < byteLength piece then some ⟨String.ofList piece, offset⟩
    else locate? pieces (offset - byteLength piece)

/-- The line of `source` that holds the byte at `offset`, with the column of that byte; there is
none past the end of the source. -/
def lineAt? (source : String) (offset : Nat) : Option LineColumn :=
  locate? (lines source.toList) offset

end MiniPascal.Text
