/-!
# Keywords

The reserved words of the language. They are written in small letters and reserved in this
spelling only.
-/

namespace MiniPascal

/-- A reserved word. -/
inductive Keyword where
  | program
  | main
  | int
  | real
  | char
  | boolean
  | procedure
  | if_
  | then_
  | else_
  | do_
  | while_
  | for_
  | switch
  | end_
  | return_
  | exit
  | when
  | upto
  | downto
  | case_
  | default
  | and
  | or
  | not
  | print
  deriving DecidableEq

namespace Keyword

/-- The word itself. -/
def spelling : Keyword → String
  | .program => "program"
  | .main => "main"
  | .int => "int"
  | .real => "real"
  | .char => "char"
  | .boolean => "boolean"
  | .procedure => "procedure"
  | .if_ => "if"
  | .then_ => "then"
  | .else_ => "else"
  | .do_ => "do"
  | .while_ => "while"
  | .for_ => "for"
  | .switch => "switch"
  | .end_ => "end"
  | .return_ => "return"
  | .exit => "exit"
  | .when => "when"
  | .upto => "upto"
  | .downto => "downto"
  | .case_ => "case"
  | .default => "default"
  | .and => "and"
  | .or => "or"
  | .not => "not"
  | .print => "print"

/-- The name of a keyword as a kind of token. -/
def name : Keyword → String
  | .program => "Program"
  | .main => "Main"
  | .int => "Int"
  | .real => "Real"
  | .char => "Char"
  | .boolean => "Boolean"
  | .procedure => "Procedure"
  | .if_ => "If"
  | .then_ => "Then"
  | .else_ => "Else"
  | .do_ => "Do"
  | .while_ => "While"
  | .for_ => "For"
  | .switch => "Switch"
  | .end_ => "End"
  | .return_ => "Return"
  | .exit => "Exit"
  | .when => "When"
  | .upto => "Upto"
  | .downto => "Downto"
  | .case_ => "Case"
  | .default => "Default"
  | .and => "And"
  | .or => "Or"
  | .not => "Not"
  | .print => "Print"

/-- All keywords. -/
def all : List Keyword :=
  [.program, .main, .int, .real, .char, .boolean, .procedure, .if_, .then_, .else_, .do_,
   .while_, .for_, .switch, .end_, .return_, .exit, .when, .upto, .downto, .case_, .default,
   .and, .or, .not, .print]

/-- Every keyword is listed. -/
theorem mem_all (word : Keyword) : word ∈ all := by
  cases word <;> decide

/-- The keyword with a given spelling, if the text is a reserved word. -/
def ofSpelling? (text : String) : Option Keyword :=
  all.find? fun word => word.spelling == text

end Keyword

end MiniPascal
