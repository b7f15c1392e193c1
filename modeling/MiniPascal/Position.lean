/-!
# Positions in a source
-/

namespace MiniPascal

/-- A place in a source: its line, counted from 1, and its offset in bytes, counted from 0. -/
structure Position where
  line : Nat
  offset : Nat
  deriving DecidableEq

/-- The start of a source. -/
def Position.start : Position :=
  ⟨1, 0⟩

end MiniPascal
