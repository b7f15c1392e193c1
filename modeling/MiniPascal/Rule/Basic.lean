import MiniPascal.Token.Operator

/-!
# Lexical rules

A rule describes one form of lexeme. The rules are tried in a fixed order, and the first one that
matches is taken, however much a later one would match.
-/

namespace MiniPascal

/-- A form of lexeme. -/
inductive Rule where
  | whitespace
  | newline
  | comment
  | real
  | integer
  | char
  | boolean
  | identifier
  | operator (op : Operator)
  deriving DecidableEq

namespace Rule

/-- The name of a rule. -/
def name : Rule → String
  | .whitespace => "whitespace"
  | .newline => "newline"
  | .comment => "comment"
  | .real => "real"
  | .integer => "integer"
  | .char => "char"
  | .boolean => "boolean"
  | .identifier => "identifier"
  | .operator op => op.ruleName

/-- All rules in the order in which they are tried. An operator stands before any other one that is
a beginning of it. -/
def all : List Rule :=
  [.whitespace, .newline, .comment, .real, .integer, .char, .boolean, .identifier,
   .operator .lessEquals, .operator .greaterEquals, .operator .notEquals, .operator .assignment,
   .operator .dotDot, .operator .less, .operator .greater, .operator .equals,
   .operator .openParen, .operator .closeParen, .operator .openBracket, .operator .closeBracket,
   .operator .openCurly, .operator .closeCurly, .operator .plus, .operator .dash,
   .operator .star, .operator .slash, .operator .percent, .operator .semicolon,
   .operator .colon, .operator .comma]

/-- Every rule is listed. -/
theorem mem_all (rule : Rule) : rule ∈ all := by
  cases rule with
  | operator op => cases op <;> decide
  | _ => decide

end Rule

end MiniPascal
