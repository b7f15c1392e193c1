/-!
# Symbol entries

What is known about an identifier: what it names, and for a variable its type and its address.
-/

namespace MiniPascal

/-- What an identifier names. -/
inductive EntryKind where
  | program
  | procedure
  | var
  deriving DecidableEq

/-- The name of a kind of entry. -/
def EntryKind.name : EntryKind → String
  | .program => "Program"
  | .procedure => "Procedure"
  | .var => "Variable"

/-- The type of a variable. -/
inductive VarType where
  | int
  | real
  | char
  | boolean
  deriving DecidableEq

/-- The name of a type. -/
def VarType.name : VarType → String
  | .int => "int"
  | .real => "real"
  | .char => "char"
  | .boolean => "boolean"

/-- A declared identifier, or one that is only known by its name. -/
structure SymbolEntry where
  name : String
  kind : EntryKind
  varType : Option VarType
  address : Option Nat
  deriving DecidableEq

namespace SymbolEntry

/-- The entry of a variable of which nothing but the name is known. -/
def placeholder (name : String) : SymbolEntry :=
  ⟨name, .var, none, none⟩

/-- Whether an entry has been declared: it has a type, or it is no variable. -/
def isDeclared (entry : SymbolEntry) : Bool :=
  entry.varType.isSome || entry.kind != .var

end SymbolEntry

end MiniPascal
