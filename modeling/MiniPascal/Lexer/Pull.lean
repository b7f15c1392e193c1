import MiniPascal.Error
import MiniPascal.Lexer.Scan
import MiniPascal.Log
import MiniPascal.Symbol.Table

/-!
# Pulls

Pulling on a lexer gives a token, a failure, or the news that the source is finished. A pull keeps
what led to its outcome, so that the log of a run can be read off its pulls.
-/

namespace MiniPascal

variable {σ η : Type}

/-- The outcome of pulling on a lexer: a token, with its rule and the lookup of its name if it has
one; an error, with its cause; or the end of the source. -/
inductive Pull where
  | token (rule : Rule) (lookup : Option Lookup) (token : Token)
  | failure (cause : Cause) (error : Error)
  | finish
  deriving DecidableEq

/-! ## From scans to pulls -/

/-- The token of a finding. Only a name puts questions to the symbol table. -/
def Finding.pull (table : SymbolTable σ η) (finding : Finding) : StateM σ Pull :=
  match finding.content with
  | .literal kind value => return .token finding.rule none ⟨kind, value, finding.position⟩
  | .name spelling => do
    let lookup ← table.resolve spelling
    return .token finding.rule (some lookup)
      ⟨.identifier, .identifier lookup.entry, finding.position⟩

/-- The outcome of pulling where a scan has ended. -/
def Ending.pull : Ending → Pull
  | .finish _ => .finish
  | .failure cause character point =>
    .failure cause (.illegalCharacter character point.position)

/-! ## Views of a pull -/

/-- What an iteration over a lexer yields: a token or an error. -/
abbrev Item := Except Error Token

/-- The token of an item, none for an error. -/
def Item.token? : Item → Option Token
  | .ok token => some token
  | .error _ => none

/-- The error of an item, none for a token. -/
def Item.error? : Item → Option Error
  | .ok _ => none
  | .error error => some error

namespace Pull

/-- The item of a pull; the end of the source is none. -/
def item? : Pull → Option Item
  | .token _ _ delivered => some (.ok delivered)
  | .failure _ error => some (.error error)
  | .finish => none

/-- The token of a pull, none at the end of the source. -/
def token? : Pull → Except Error (Option Token)
  | .token _ _ delivered => .ok (some delivered)
  | .failure _ error => .error error
  | .finish => .ok none

/-! ## The log of a pull -/

/-- The part of the program that lexing records come from. -/
def logTarget : String :=
  "pascal_lexer::lexer::lexer"

/-- The record of a resolved name. -/
def lookupRecord (lookup : Lookup) : LogRecord :=
  match lookup.origin with
  | .table =>
    ⟨.debug, logTarget, "Resolved identifier \"" ++ lookup.name ++ "\" from symbol table"⟩
  | .placeholder =>
    ⟨.debug, logTarget, "Created placeholder entry for identifier \"" ++ lookup.name ++ "\""⟩

/-- The record of a token, with the name of its rule. -/
def tokenRecord (rule : Rule) (token : Token) : LogRecord :=
  ⟨.trace, logTarget, rule.name ++ " -> " ++ token.dump⟩

/-- The record of a failure at which no rule matched. -/
def failureRecord (error : Error) : LogRecord :=
  ⟨.debug, logTarget, "Lexing failed: " ++ error.message⟩

/-- The records of a pull, in order. A refused lexeme leaves no record. -/
def records : Pull → List LogRecord
  | .token rule lookup delivered =>
    (lookup.map lookupRecord).toList ++ [tokenRecord rule delivered]
  | .failure .noRule error => [failureRecord error]
  | .failure .refusedLexeme _ => []
  | .finish => []

end Pull

end MiniPascal
