import MiniPascal.Rule.Basic
import MiniPascal.Token.Basic

/-!
# What a lexeme means

A lexeme is read by the rule that took it, without regard to the text around it. Blanks, newlines
and comments mean nothing. A name is left to be resolved. Every other lexeme denotes a token, only
that an integer past the largest one is refused, as a real would be in which no number is found.
-/

namespace MiniPascal

/-- What a lexeme contributes to the tokens of a source. -/
inductive Content where
  | literal (kind : TokenKind) (value : TokenValue)
  | name (spelling : String)
  deriving DecidableEq

/-- The meaning of a lexeme: nothing, a contribution, or a refusal. -/
inductive Reading where
  | skipped
  | refused
  | content (content : Content)
  deriving DecidableEq

/-- The largest value of an integer literal. -/
def maxInteger : Nat :=
  Nat.pow 2 63 - 1

namespace Rule

/-- Reads the digits of an integer literal. -/
def readInteger (digits : List Char) : Reading :=
  let value := Text.ofDigits digits
  if value ≤ maxInteger then .content (.literal .numConst (.int value)) else .refused

/-- Reads a real by a function that may find no number in what follows the sharp sign. -/
def readRealBy (number? : List Char → Option Binary64) (lexeme : List Char) : Reading :=
  match number? (lexeme.drop 1) with
  | some value => .content (.literal .realConst (.real value))
  | none => .refused

/-- Reads a run of letters: a reserved word, else a name. -/
def readWord (word : String) : Reading :=
  match Keyword.ofSpelling? word with
  | some keyword => .content (.literal (.keyword keyword) .absent)
  | none => .content (.name word)

/-- Reads a lexeme that a rule has taken. -/
def read : Rule → List Char → Reading
  | .whitespace, _ => .skipped
  | .newline, _ => .skipped
  | .comment, _ => .skipped
  | .real, lexeme => readRealBy Binary64.ofPointed? lexeme
  | .integer, lexeme => readInteger (lexeme.drop 1)
  | .char, lexeme => .content (.literal .charConst (.char (CharValue.ofLexeme lexeme)))
  | .boolean, lexeme =>
    .content (.literal .boolConst (.bool (if lexeme = ['t', 'r', 'u', 'e'] then 1 else 0)))
  | .identifier, lexeme => readWord (String.ofList lexeme)
  | .operator op, _ => .content (.literal (.operator op) .absent)

end Rule

end MiniPascal
