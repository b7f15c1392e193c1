import MiniPascal.Symbol.Entry

/-!
# Symbol tables

Identifiers are resolved through four questions to a symbol table. A table may be anything that
answers them: it may keep a state of type `σ`, its handles may be of any type `η`, and its answers
need not be consistent. `SymbolTable.lookup?` asks for an entry step by step and gives up at the
first question without an answer; `SymbolTable.resolve` then falls back on a placeholder.
-/

namespace MiniPascal

variable {σ η : Type}

/-- The questions that can be put to a symbol table. -/
structure SymbolTable (σ η : Type) where
  contains : String → StateM σ Bool
  indexOf : String → StateM σ (Option η)
  get : η → StateM σ (Option SymbolEntry)
  placeholder : String → StateM σ SymbolEntry

/-- Where the entry of an identifier comes from. -/
inductive Origin where
  | table
  | placeholder
  deriving DecidableEq

/-- The outcome of resolving a name. -/
structure Lookup where
  name : String
  origin : Origin
  entry : SymbolEntry
  deriving DecidableEq

namespace SymbolTable

/-- The entry under a name, if the table says that it contains the name, has a handle for it and an
entry under that handle. -/
def lookup? (table : SymbolTable σ η) (name : String) : StateM σ (Option SymbolEntry) := do
  match ← table.contains name with
  | false => return none
  | true =>
    match ← table.indexOf name with
    | none => return none
    | some handle => table.get handle

/-- The entry for a name: the one in the table, else a placeholder made by the table. -/
def resolve (table : SymbolTable σ η) (name : String) : StateM σ Lookup := do
  match ← table.lookup? name with
  | some entry => return ⟨name, .table, entry⟩
  | none => return ⟨name, .placeholder, ← table.placeholder name⟩

end SymbolTable

end MiniPascal
