import MiniPascal.Binary64.Text
import MiniPascal.Symbol.Entry

/-!
# Values of tokens

Literals carry the value that they denote, and an identifier carries its symbol entry. Tokens own
their values: a later change of a symbol table does not reach them.
-/

namespace MiniPascal

/-- The value of a character literal: the code zero, or a character between apostrophes. -/
inductive CharValue where
  | code (value : Int)
  | quoted (text : String)
  deriving DecidableEq

namespace CharValue

/-- The text of a character value. -/
def text : CharValue → String
  | .code value => Text.integerText value
  | .quoted text => text

/-- The value of a character literal as written: backslash and `0` is the code zero, backslash and
any other character is that character, and a character between apostrophes is itself. -/
def ofLexeme : List Char → CharValue
  | ['\\', '0'] => .code 0
  | ['\\', c] => .quoted (String.ofList ['\'', c, '\''])
  | lexeme => .quoted (String.ofList lexeme)

end CharValue

/-- The value that a token carries. -/
inductive TokenValue where
  | int (value : Int)
  | real (value : Binary64)
  | char (value : CharValue)
  | bool (value : UInt8)
  | identifier (entry : SymbolEntry)
  | absent
  deriving DecidableEq

namespace TokenValue

/-- The text of a value: a number, a character, the name of an identifier, or nothing. -/
def text : TokenValue → String
  | .int value => Text.integerText value
  | .real value => value.text
  | .char value => value.text
  | .bool value => Text.naturalText value.toNat
  | .identifier entry => entry.name
  | .absent => ""

/-- The name of the type of a literal; other values have none. -/
def typeTag? : TokenValue → Option String
  | .int _ => some "int"
  | .real _ => some "float"
  | .char _ => some "char"
  | .bool _ => some "bool"
  | .identifier _ => none
  | .absent => none

/-- Whether two values agree. Reals are compared as numbers, everything else as it stands. -/
def agrees : TokenValue → TokenValue → Bool
  | .real x, .real y => x.equals y
  | a, b => a == b

end TokenValue

end MiniPascal
