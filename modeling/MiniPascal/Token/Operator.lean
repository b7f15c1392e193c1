/-!
# Operators

The operators and punctuation of the language, each with its fixed spelling and its name.
-/

namespace MiniPascal

/-- An operator or punctuation mark. -/
inductive Operator where
  | less
  | lessEquals
  | greater
  | greaterEquals
  | equals
  | notEquals
  | openParen
  | closeParen
  | openBracket
  | closeBracket
  | openCurly
  | closeCurly
  | plus
  | dash
  | star
  | slash
  | percent
  | assignment
  | semicolon
  | dotDot
  | comma
  | colon
  deriving DecidableEq

namespace Operator

/-- The characters that an operator is written with. -/
def spelling : Operator → List Char
  | .less => ['<']
  | .lessEquals => ['<', '=']
  | .greater => ['>']
  | .greaterEquals => ['>', '=']
  | .equals => ['=']
  | .notEquals => ['<', '>']
  | .openParen => ['(']
  | .closeParen => [')']
  | .openBracket => ['[']
  | .closeBracket => [']']
  | .openCurly => ['\x7b']
  | .closeCurly => ['\x7d']
  | .plus => ['+']
  | .dash => ['-']
  | .star => ['*']
  | .slash => ['/']
  | .percent => ['%']
  | .assignment => [':', '=']
  | .semicolon => [';']
  | .dotDot => ['.', '.']
  | .comma => [',']
  | .colon => [':']

/-- The name of an operator as a kind of token. -/
def name : Operator → String
  | .less => "Less"
  | .lessEquals => "LessEquals"
  | .greater => "Greater"
  | .greaterEquals => "GreaterEquals"
  | .equals => "Equals"
  | .notEquals => "NotEquals"
  | .openParen => "OpenParen"
  | .closeParen => "CloseParen"
  | .openBracket => "OpenBracket"
  | .closeBracket => "CloseBracket"
  | .openCurly => "OpenCurly"
  | .closeCurly => "CloseCurly"
  | .plus => "Plus"
  | .dash => "Dash"
  | .star => "Star"
  | .slash => "Slash"
  | .percent => "Percent"
  | .assignment => "Assignment"
  | .semicolon => "Semicolon"
  | .dotDot => "DotDot"
  | .comma => "Comma"
  | .colon => "Colon"

/-- The name of the lexical rule of an operator. -/
def ruleName : Operator → String
  | .less => "less"
  | .lessEquals => "less_equals"
  | .greater => "greater"
  | .greaterEquals => "greater_equals"
  | .equals => "equals"
  | .notEquals => "not_equals"
  | .openParen => "open_paren"
  | .closeParen => "close_paren"
  | .openBracket => "open_bracket"
  | .closeBracket => "close_bracket"
  | .openCurly => "open_curly"
  | .closeCurly => "close_curly"
  | .plus => "plus"
  | .dash => "dash"
  | .star => "star"
  | .slash => "slash"
  | .percent => "percent"
  | .assignment => "assignment"
  | .semicolon => "semicolon"
  | .dotDot => "dot_dot"
  | .comma => "comma"
  | .colon => "colon"

/-- All operators. -/
def all : List Operator :=
  [.less, .lessEquals, .greater, .greaterEquals, .equals, .notEquals, .openParen, .closeParen,
   .openBracket, .closeBracket, .openCurly, .closeCurly, .plus, .dash, .star, .slash, .percent,
   .assignment, .semicolon, .dotDot, .comma, .colon]

/-- Every operator is listed. -/
theorem mem_all (op : Operator) : op ∈ all := by
  cases op <;> decide

end Operator

end MiniPascal
