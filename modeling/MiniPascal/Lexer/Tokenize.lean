import MiniPascal.Lexer.Basic
import MiniPascal.Symbol.VariableTable

/-!
# Lexing a whole source

The items, the tokens and the log of a source, against any symbol table and against a table of
variables.
-/

namespace MiniPascal

variable {σ η : Type}

/-- The items of a source, in order; an error is the last one. -/
def items (table : SymbolTable σ η) (source : String) : StateM σ (List Item) := do
  let (items, _) ← (Lexer.start source).rest table
  return items

/-- The tokens among the items up to the first error, or that error. -/
def collect : List Item → Except Error (List Token)
  | [] => .ok []
  | .ok token :: items => (collect items).map (token :: ·)
  | .error error :: _ => .error error

/-- The tokens of a source, or its first error. -/
def tokenize (table : SymbolTable σ η) (source : String) :
    StateM σ (Except Error (List Token)) := do
  return collect (← items table source)

/-- Whether two outcomes of lexing agree: the same error, or tokens that agree one by one. -/
def outcomesAgree : Except Error (List Token) → Except Error (List Token) → Bool
  | .ok first, .ok second =>
    first.length == second.length && (first.zip second).all fun (a, b) => a.agrees b
  | .error first, .error second => first == second
  | _, _ => false

/-- The log records of lexing a source, in order. -/
def records (table : SymbolTable σ η) (source : String) : StateM σ (List LogRecord) := do
  let (pulls, _) ← (Lexer.start source).pulls table
  return pulls.flatMap Pull.records

namespace VariableTable

/-- The items of a source against a table of variables. -/
def items (table : VariableTable) (source : String) : List Item :=
  ((MiniPascal.items symbols source).run table).1

/-- The tokens of a source against a table of variables, or its first error. -/
def tokenize (table : VariableTable) (source : String) : Except Error (List Token) :=
  ((MiniPascal.tokenize symbols source).run table).1

/-- The log records of lexing a source against a table of variables. -/
def records (table : VariableTable) (source : String) : List LogRecord :=
  ((MiniPascal.records symbols source).run table).1

end VariableTable

end MiniPascal
