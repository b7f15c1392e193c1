import MiniPascal.Position
import MiniPascal.Token.Kind
import MiniPascal.Token.Value

/-!
# Tokens

A token is a kind, a value and the position of the first character of its lexeme. It has two
texts: a block of several lines, and the one line of a token dump.
-/

namespace MiniPascal

/-- A lexical unit of a source. -/
structure Token where
  kind : TokenKind
  value : TokenValue
  position : Position
  deriving DecidableEq

namespace Token

/-- Whether the kind of a token is among the given ones. -/
def isOneOf (token : Token) (kinds : List TokenKind) : Bool :=
  kinds.contains token.kind

/-- Whether two tokens agree in kind, value and position, reals being compared as numbers. -/
def agrees (a b : Token) : Bool :=
  a.kind == b.kind && a.value.agrees b.value && a.position == b.position

/-- The text of a token over several lines, one for each of its parts. -/
def block (token : Token) : String :=
  "Token \x7b\nkind: " ++ token.kind.name ++ ",\nvalue: " ++ token.value.text
    ++ ",\nline: " ++ Text.naturalText token.position.line
    ++ ",\noffset: " ++ Text.naturalText token.position.offset ++ "\x7d"

/-- The line of a token in a dump: position, kind, and in parentheses the value if the kind has
one. -/
def dump (token : Token) : String :=
  Text.naturalText token.position.line ++ ":" ++ Text.naturalText token.position.offset ++ " "
    ++ token.kind.name ++ " ("
    ++ (if token.isOneOf TokenKind.valued then token.value.text else "") ++ ")"

end Token

end MiniPascal
