import MiniPascal.Symbol.Table

/-!
# Recorded questions

A recording table passes every question on to another table and keeps a list of the questions, in
the order in which they were put.
-/

namespace MiniPascal

variable {σ η : Type}

/-- A question put to a symbol table. -/
inductive Question (η : Type) where
  | contains (name : String)
  | indexOf (name : String)
  | get (handle : η)
  | placeholder (name : String)
  deriving DecidableEq

namespace SymbolTable

/-- Notes a question and then lets it be answered. -/
def noting {α : Type} (question : Question η) (answer : StateM σ α) :
    StateM (σ × List (Question η)) α := fun (state, asked) =>
  let (result, next) := answer.run state
  (result, next, asked ++ [question])

/-- The table that answers like the given one and keeps all questions. -/
def recording (table : SymbolTable σ η) : SymbolTable (σ × List (Question η)) η where
  contains name := noting (.contains name) (table.contains name)
  indexOf name := noting (.indexOf name) (table.indexOf name)
  get handle := noting (.get handle) (table.get handle)
  placeholder name := noting (.placeholder name) (table.placeholder name)

end SymbolTable

end MiniPascal
