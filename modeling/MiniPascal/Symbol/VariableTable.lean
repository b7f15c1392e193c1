import MiniPascal.Symbol.Table

/-!
# Tables of variables

A variable table keeps its entries in the order of their first insertion. A name that is inserted
again keeps its slot, and the new entry takes the place of the old one. As a symbol table it
answers from its entries and never changes.
-/

namespace MiniPascal

/-- Entries in the order of declaration. -/
structure VariableTable where
  entries : List SymbolEntry
  deriving DecidableEq

namespace VariableTable

/-- The table without entries. -/
def empty : VariableTable :=
  ⟨[]⟩

/-- The number of entries. -/
def size (table : VariableTable) : Nat :=
  table.entries.length

/-- Whether there are no entries. -/
def isEmpty (table : VariableTable) : Bool :=
  table.entries.isEmpty

/-- Whether some entry has the given name. -/
def contains (table : VariableTable) (name : String) : Bool :=
  table.entries.any fun entry => entry.name == name

/-- The first slot with the given name. -/
def indexOf? (table : VariableTable) (name : String) : Option Nat :=
  table.entries.findIdx? fun entry => entry.name == name

/-- The entry in a slot. -/
def get? (table : VariableTable) (index : Nat) : Option SymbolEntry :=
  table.entries[index]?

/-- Puts an entry into the slot of its name, or into a new last slot; answers that slot. -/
def insert (table : VariableTable) (entry : SymbolEntry) : Nat × VariableTable :=
  match table.indexOf? entry.name with
  | some index => (index, ⟨table.entries.set index entry⟩)
  | none => (table.size, ⟨table.entries ++ [entry]⟩)

/-- Changes the entry in a slot, if there is one. -/
def modify? (table : VariableTable) (index : Nat) (change : SymbolEntry → SymbolEntry) :
    Option VariableTable :=
  (table.get? index).map fun entry => ⟨table.entries.set index (change entry)⟩

/-- The table with the given entries inserted in order. -/
def ofEntries (entries : List SymbolEntry) : VariableTable :=
  entries.foldl (fun table entry => (table.insert entry).2) empty

/-- Variable tables as symbol tables, with slots as handles. -/
def symbols : SymbolTable VariableTable Nat where
  contains name := do return (← get).contains name
  indexOf name := do return (← get).indexOf? name
  get index := do return (← get).get? index
  placeholder name := return .placeholder name

end VariableTable

end MiniPascal
