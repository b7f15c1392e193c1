import MiniPascal.Position
import MiniPascal.Text.Utf8

/-!
# Cursors

A cursor stands at a byte offset of a source and keeps the number of a line. It can be put
anywhere: also past the end of the source or inside a character, and from there nothing can be
read.
-/

namespace MiniPascal

/-- A byte offset and a line in a source. -/
structure Cursor where
  source : String
  offset : Nat
  line : Nat
  deriving DecidableEq

namespace Cursor

/-- The cursor at the start of a source. -/
def start (source : String) : Cursor :=
  ⟨source, 0, 1⟩

/-- Moves a cursor forward by a number of bytes. -/
def advance (cursor : Cursor) (bytes : Nat) : Cursor :=
  { cursor with offset := cursor.offset + bytes }

/-- Whether no byte of the source lies at or behind the cursor. -/
def atEnd (cursor : Cursor) : Bool :=
  Text.byteLength cursor.source.toList ≤ cursor.offset

/-- What follows the cursor; there is no answer where the source cannot be cut. -/
def remainder? (cursor : Cursor) : Option (List Char) :=
  Text.dropBytes? cursor.offset cursor.source.toList

/-- The character at the cursor, if any, where the source can be cut at all. -/
def character? (cursor : Cursor) : Option (Option Char) :=
  cursor.remainder?.map List.head?

end Cursor

end MiniPascal
