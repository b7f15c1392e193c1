import MiniPascal.Position
import MiniPascal.Text.Decimal
import MiniPascal.Text.Quoted

/-!
# Errors

Lexing has one way to fail: a character at which no lexeme can be read. An error names that
character and its position, and for some characters it has a tip on what to write instead.
-/

namespace MiniPascal

/-- What is wrong with a source. -/
inductive ErrorKind where
  | illegalCharacter (character : Char)
  deriving DecidableEq

namespace ErrorKind

/-- The name of a kind of error. -/
def name : ErrorKind → String
  | .illegalCharacter _ => "IllegalCharacter"

/-- The text of an error without its position. -/
def message : ErrorKind → String
  | .illegalCharacter character => "illegal character " ++ Text.quoted character

/-- Advice on how to avoid an error. -/
def tip? : ErrorKind → Option String
  | .illegalCharacter character =>
    if character = '#' then
      some "Numbers are written `#0`, `#42` or `#3.25`, without leading or trailing zeros"
    else if character.isDigit then some "Numeric literals must start with `#`"
    else if character = '\r' then
      some "Carriage returns are not allowed, save the file with `\\n` line endings"
    else none

end ErrorKind

/-- A fault at a position of a source. -/
structure Error where
  kind : ErrorKind
  position : Position
  deriving DecidableEq

namespace Error

/-- The error of a character that starts no lexeme. -/
def illegalCharacter (character : Char) (position : Position) : Error :=
  ⟨.illegalCharacter character, position⟩

/-- The text of an error, with its position. -/
def message (error : Error) : String :=
  error.kind.message ++ " at line " ++ Text.naturalText error.position.line
    ++ ", offset " ++ Text.naturalText error.position.offset

end Error

end MiniPascal
