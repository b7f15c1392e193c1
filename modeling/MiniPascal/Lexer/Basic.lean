import MiniPascal.Cursor
import MiniPascal.Lexer.Pull

/-!
# Lexers

A lexer reads a source with a list of rules. Tokens can be pulled off it one at a time, also again
after a failure, where it stays. It can be iterated, where the first error or the end of the source
is final. The two ways may be mixed on one lexer. The symbol table is the state of the monad, so
that it may change with the questions put to it.
-/

namespace MiniPascal

variable {σ η : Type}

/-- A lexer on its way through a source. -/
structure Lexer where
  source : String
  rules : List Rule
  point : Point
  finished : Bool
  deriving DecidableEq

namespace Lexer

/-- The lexer at the start of a source, with rules of one's own. -/
def withRules (rules : List Rule) (source : String) : Lexer :=
  ⟨source, rules, Point.start source.toList, false⟩

/-- The lexer at the start of a source. -/
def start (source : String) : Lexer :=
  withRules Rule.all source

/-- The cursor at the point that a lexer has reached. -/
def cursor (lexer : Lexer) : Cursor :=
  ⟨lexer.source, lexer.point.position.offset, lexer.point.position.line⟩

/-! ## Pulling -/

/-- Pulls the next token, wherever the lexer stands. -/
def pull (table : SymbolTable σ η) (lexer : Lexer) : StateM σ (Pull × Lexer) :=
  match Scan.next lexer.rules lexer.point with
  | .found finding => do
    return (← finding.pull table, { lexer with point := finding.next })
  | .ended ending => return (ending.pull, { lexer with point := ending.point })

/-- The next token, none at the end of the source, or the error there. -/
def nextToken (table : SymbolTable σ η) (lexer : Lexer) :
    StateM σ (Except Error (Option Token) × Lexer) := do
  let (pull, lexer) ← lexer.pull table
  return (pull.token?, lexer)

/-! ## Iterating -/

/-- The next item of the iteration. After the first error and after the end there is none. -/
def next (table : SymbolTable σ η) (lexer : Lexer) : StateM σ (Option Item × Lexer) :=
  if lexer.finished then return (none, lexer)
  else do
    let (pull, lexer) ← lexer.pull table
    match pull with
    | .token _ _ token => return (some (.ok token), lexer)
    | .failure _ error => return (some (.error error), { lexer with finished := true })
    | .finish => return (none, { lexer with finished := true })

/-- All pulls that are left of the iteration, its end included. -/
def pulls (table : SymbolTable σ η) (lexer : Lexer) : StateM σ (List Pull × Lexer) :=
  if lexer.finished then return ([], lexer)
  else do
    let (findings, ending) := Scan.all lexer.rules lexer.point
    let tokens ← findings.mapM fun finding => finding.pull table
    return (tokens ++ [ending.pull], { lexer with point := ending.point, finished := true })

/-- All items that are left of the iteration. -/
def rest (table : SymbolTable σ η) (lexer : Lexer) : StateM σ (List Item × Lexer) := do
  let (pulls, lexer) ← lexer.pulls table
  return (pulls.filterMap Pull.item?, lexer)

end Lexer

end MiniPascal
