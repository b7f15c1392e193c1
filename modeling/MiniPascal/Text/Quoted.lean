import MiniPascal.Text.Visible

/-!
# Quoted characters

A character is quoted between two apostrophes so that it can be told from every other one and
never breaks a line: it stands for itself when it is visible, five common characters and the
apostrophe have a short form after a backslash, and any other is given by its code point.
-/

namespace MiniPascal.Text

/-- What stands between the apostrophes for a character. -/
def escaped (c : Char) : List Char :=
  match c with
  | '\x00' => ['\\', '0']
  | '\t' => ['\\', 't']
  | '\n' => ['\\', 'n']
  | '\r' => ['\\', 'r']
  | '\'' => ['\\', '\'']
  | '\\' => ['\\', '\\']
  | c =>
    if isVisible c then [c]
    else ['\\', 'u', '\x7b'] ++ Nat.toDigits 16 c.toNat ++ ['\x7d']

/-- A character between apostrophes. -/
def quoted (c : Char) : String :=
  String.ofList (['\''] ++ escaped c ++ ['\''])

end MiniPascal.Text
