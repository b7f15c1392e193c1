/-!
# Text measured in bytes

Places in a source are counted in bytes of its UTF-8 form. This module holds that measure of a
text and the cut of a text at a byte offset. Main statements: the measure is additive
(`byteLength_append`), and cutting at the measure of a beginning leaves what follows it
(`dropBytes?_byteLength_append`).
-/

namespace MiniPascal.Text

/-! ## Byte measure -/

/-- The number of bytes of the UTF-8 form of a text. -/
def byteLength : List Char → Nat
  | [] => 0
  | c :: rest => c.utf8Size + byteLength rest

/-- The empty text has no bytes. -/
@[simp] theorem byteLength_nil : byteLength [] = 0 := rfl

/-- A character adds its own bytes. -/
@[simp] theorem byteLength_cons (c : Char) (rest : List Char) :
    byteLength (c :: rest) = c.utf8Size + byteLength rest := rfl

/-- The measure of two texts in a row is the sum of theirs. -/
@[simp] theorem byteLength_append (left right : List Char) :
    byteLength (left ++ right) = byteLength left + byteLength right := by
  induction left with
  | nil => simp
  | cons c rest ih => simp [ih, Nat.add_assoc]

/-- A text has at least as many bytes as characters. -/
theorem length_le_byteLength (text : List Char) : text.length ≤ byteLength text := by
  induction text with
  | nil => exact Nat.le_refl 0
  | cons c text ih =>
    have hpos : 0 < c.utf8Size := Char.utf8Size_pos c
    rw [List.length_cons, byteLength_cons]
    omega

/-- It has as many of them exactly if each of its characters has one byte. -/
theorem byteLength_eq_length_iff {text : List Char} :
    byteLength text = text.length ↔ ∀ c ∈ text, c.utf8Size = 1 := by
  induction text with
  | nil => simp
  | cons c text ih =>
    have hpos : 0 < c.utf8Size := Char.utf8Size_pos c
    have hle := length_le_byteLength text
    rw [List.forall_mem_cons, ← ih, byteLength_cons, List.length_cons]
    omega

/-- The measure of a text is the size of its string. -/
theorem utf8ByteSize_ofList (text : List Char) :
    (String.ofList text).utf8ByteSize = byteLength text := by
  induction text with
  | nil => rfl
  | cons c text ih =>
    rw [String.ofList_cons, String.utf8ByteSize_append, String.utf8ByteSize_singleton, ih,
      byteLength_cons]

/-- The size of a string is the measure of its text. -/
theorem utf8ByteSize_eq (source : String) : source.utf8ByteSize = byteLength source.toList := by
  rw [← utf8ByteSize_ofList, String.ofList_toList]

/-! ## Cutting at a byte offset -/

/-- What is left of a text after its first `n` bytes. There is nothing to answer when the text is
shorter than that, or when the cut falls inside a character. -/
def dropBytes? : Nat → List Char → Option (List Char)
  | 0, text => some text
  | _ + 1, [] => none
  | n + 1, c :: rest =>
    if c.utf8Size ≤ n + 1 then dropBytes? (n + 1 - c.utf8Size) rest else none

/-- Cutting off no bytes leaves the text as it is. -/
@[simp] theorem dropBytes?_zero (text : List Char) : dropBytes? 0 text = some text := by
  unfold dropBytes?
  rfl

/-- Cutting right after a beginning of a text leaves the rest of it. -/
theorem dropBytes?_byteLength_append (left right : List Char) :
    dropBytes? (byteLength left) (left ++ right) = some right := by
  induction left with
  | nil => simp
  | cons c rest ih =>
    have positive : 0 < c.utf8Size := Char.utf8Size_pos c
    obtain ⟨n, hn⟩ : ∃ n, byteLength (c :: rest) = n + 1 :=
      ⟨c.utf8Size + byteLength rest - 1, by simp; omega⟩
    have hrest : n + 1 - c.utf8Size = byteLength rest := by
      rw [← hn]; simp
    have hle : c.utf8Size ≤ n + 1 := by
      rw [← hn]; simp
    rw [hn, List.cons_append, dropBytes?, if_pos hle, hrest, ih]

end MiniPascal.Text
