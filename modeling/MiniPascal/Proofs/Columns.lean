import MiniPascal.Text.Line

/-!
# Lines and columns

The line of a character of a source can be told without dividing the source: it is counted by the
newlines that stand before the character. Main statements: dividing a source counts in the same way
(`Text.exists_lines_eq`), and so does the search for the line of a byte
(`Text.lineAt?_of_lines_eq`).
-/

namespace MiniPascal.Text

/-! ## The line of a character -/

/-- The line of a character comes behind as many lines as there are newlines before it. These lines,
and what stands before the character in its own line, make up all that stands before it. -/
theorem exists_lines_eq (before : List Char) (c : Char) (after : List Char) :
    ∃ earlier start tail later,
      lines (before ++ c :: after) = earlier ++ (start ++ c :: tail) :: later ∧
        earlier.flatten ++ start = before ∧ earlier.length = before.count '\n' := by
  induction before with
  | nil =>
    rw [List.nil_append, lines]
    by_cases hc : c = '\n'
    · rw [if_pos hc]
      exact ⟨[], [], [], lines after, rfl, rfl, rfl⟩
    · rw [if_neg hc]
      cases lines after with
      | nil => exact ⟨[], [], [], [], rfl, rfl, rfl⟩
      | cons first others => exact ⟨[], [], first, others, rfl, rfl, rfl⟩
  | cons d before ih =>
    obtain ⟨earlier, start, tail, later, hlines, hbefore, hcount⟩ := ih
    rw [List.cons_append, lines]
    by_cases hd : d = '\n'
    · refine ⟨[d] :: earlier, start, tail, later, ?_, ?_, ?_⟩
      · rw [if_pos hd, hlines, List.cons_append]
      · rw [List.flatten_cons, List.append_assoc, hbefore, List.singleton_append]
      · rw [List.length_cons, hcount, hd, List.count_cons_self]
    · rw [if_neg hd, hlines, List.count_cons_of_ne hd, ← hcount]
      -- the character goes to the front of the first line, which may be the one of `c`
      cases earlier with
      | nil =>
        refine ⟨[], d :: start, tail, later, rfl, ?_, rfl⟩
        rw [← hbefore]
        rfl
      | cons first earlier =>
        refine ⟨(d :: first) :: earlier, start, tail, later, rfl, ?_, rfl⟩
        rw [← hbefore]
        rfl

/-! ## The end of a line -/

/-- A newline can stand only at the end of a line. -/
theorem notMem_dropLast_of_mem_lines {text line : List Char} (h : line ∈ lines text) :
    '\n' ∉ line.dropLast := by
  induction text generalizing line with
  | nil => cases h
  | cons c text ih =>
    rw [lines] at h
    split at h
    · rcases List.mem_cons.1 h with rfl | h
      · exact List.not_mem_nil
      · exact ih h
    · next hc =>
      cases hlines : lines text with
      | nil =>
        rw [hlines] at h
        rw [List.mem_singleton.1 h]
        exact List.not_mem_nil
      | cons first others =>
        rw [hlines] at h ih
        rcases List.mem_cons.1 h with rfl | h
        · cases first with
          | nil => exact List.not_mem_nil
          | cons d first =>
            rw [List.dropLast_cons_cons, List.mem_cons, not_or]
            exact ⟨Ne.symm hc, ih List.mem_cons_self⟩
        · exact ih (List.mem_cons_of_mem first h)

/-! ## The line of a byte -/

/-- A byte is found in the piece that it lies in. -/
theorem locate?_append {piece : List Char} {column : Nat} (h : column < byteLength piece)
    (earlier later : List (List Char)) :
    locate? (earlier ++ piece :: later) (byteLength earlier.flatten + column) =
      some ⟨String.ofList piece, column⟩ := by
  induction earlier with
  | nil =>
    rw [List.nil_append, locate?, List.flatten_nil, byteLength_nil, Nat.zero_add, if_pos h]
  | cons first earlier ih =>
    have hbehind : ¬ byteLength (first ++ earlier.flatten) + column < byteLength first := by
      rw [byteLength_append]
      omega
    have hrest : byteLength (first ++ earlier.flatten) + column - byteLength first =
        byteLength earlier.flatten + column := by
      rw [byteLength_append]
      omega
    rw [List.cons_append, locate?, List.flatten_cons, if_neg hbehind, hrest, ih]

/-- The search for the byte of a character finds its line and, as its column, the bytes that stand
before it in that line. -/
theorem lineAt?_of_lines_eq {source : String} {earlier later : List (List Char)}
    {start tail : List Char} {c : Char}
    (h : lines source.toList = earlier ++ (start ++ c :: tail) :: later) :
    lineAt? source (byteLength earlier.flatten + byteLength start) =
      some ⟨String.ofList (start ++ c :: tail), byteLength start⟩ := by
  have hlt : byteLength start < byteLength (start ++ c :: tail) := by
    have hpos : 0 < c.utf8Size := Char.utf8Size_pos c
    rw [byteLength_append, byteLength_cons]
    omega
  rw [lineAt?, h, locate?_append hlt]

end MiniPascal.Text
