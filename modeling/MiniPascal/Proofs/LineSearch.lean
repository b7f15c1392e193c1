import MiniPascal.Proofs.Columns
import MiniPascal.Proofs.Slice

/-!
# The line of a byte

The search for the line of a byte walks over the lines of a source and adds up their lengths. What
it finds can be told without walking: the slice around the byte that comes at the start of the
source or behind a newline, and goes on to the next newline or to the end of the source. Main
statement: `Text.lineAt?_isLineOf`, for all sources and all offsets, those inside a character among
them.
-/

namespace MiniPascal.Text

/-! ## Lines and their places -/

/-- A line stands between two parts of a text: it comes at the start or behind a newline, and goes
on to the next newline or to the end. -/
structure IsLine (before line after : List Char) : Prop where
  starts : before = [] ∨ before.getLast? = some '\n'
  inner : '\n' ∉ line.dropLast
  ends : line.getLast? = some '\n' ∨ after = []

/-- A line that is followed by another one ends in a newline. -/
theorem getLast?_of_lines_eq {text line next : List Char} {earlier later : List (List Char)}
    (h : lines text = earlier ++ line :: next :: later) : line.getLast? = some '\n' := by
  induction text generalizing earlier line with
  | nil =>
    rw [lines] at h
    exact absurd h.symm (by simp)
  | cons c text ih =>
    rw [lines] at h
    split at h
    · next hc =>
      cases earlier with
      | nil =>
        obtain ⟨rfl, -⟩ := List.cons.inj h
        rw [hc]
        rfl
      | cons first earlier => exact ih (List.cons.inj h).2
    · cases hlines : lines text with
      | nil =>
        rw [hlines] at h
        cases earlier <;> simp at h
      | cons first others =>
        rw [hlines] at h
        cases earlier with
        | nil =>
          -- the character goes to the front of the line, which ends as before
          obtain ⟨rfl, rfl⟩ := List.cons.inj h
          have hfirst : lines text = [] ++ first :: next :: later := hlines
          rw [List.getLast?_cons, ih hfirst]
          rfl
        | cons piece earlier =>
          obtain ⟨rfl, rfl⟩ := List.cons.inj h
          have hbehind : lines text = (first :: earlier) ++ line :: next :: later := hlines
          exact ih hbehind

/-- A member of the lines of a text is a line between the ones before it and the ones behind it. -/
theorem isLine_of_lines_eq {text line : List Char} {earlier later : List (List Char)}
    (h : lines text = earlier ++ line :: later) : IsLine earlier.flatten line later.flatten where
  starts := by
    rcases List.eq_nil_or_concat earlier with rfl | ⟨earlier, last, rfl⟩
    · exact Or.inl rfl
    · rw [List.concat_eq_append, List.append_assoc] at h
      have hlast : last.getLast? = some '\n' := getLast?_of_lines_eq h
      rw [List.concat_eq_append, List.flatten_append, List.flatten_singleton, List.getLast?_append,
        hlast]
      exact Or.inr rfl
  inner := notMem_dropLast_of_mem_lines (h ▸ List.mem_append_right _ List.mem_cons_self)
  ends := by
    cases later with
    | nil => exact Or.inr rfl
    | cons next later => exact Or.inl (getLast?_of_lines_eq h)

/-- The lines of a text go on as those of what follows, if the text is empty or ends in a newline.
-/
theorem lines_append {before : List Char} (h : before = [] ∨ before.getLast? = some '\n')
    (rest : List Char) : lines (before ++ rest) = lines before ++ lines rest := by
  induction before with
  | nil => rfl
  | cons c before ih =>
    cases before with
    | nil =>
      obtain rfl : c = '\n' := by simpa using h
      rfl
    | cons d before =>
      have hbefore : lines ((d :: before) ++ rest) = lines (d :: before) ++ lines rest :=
        ih (Or.inr (by simpa using h))
      rw [List.cons_append, lines, lines, hbefore]
      split
      · rfl
      · cases hlines : lines (d :: before) with
        | nil =>
          have hflatten := flatten_lines (d :: before)
          rw [hlines] at hflatten
          cases hflatten
        | cons first others => rfl

/-- A text without newlines is one line. -/
theorem lines_eq_singleton {line : List Char} (hline : line ≠ []) (h : '\n' ∉ line) :
    lines line = [line] := by
  induction line with
  | nil => exact absurd rfl hline
  | cons c line ih =>
    obtain ⟨hc, hrest⟩ := not_or.1 (mt List.mem_cons.2 h)
    rw [lines, if_neg (Ne.symm hc)]
    cases line with
    | nil => rfl
    | cons d line => rw [ih (List.cons_ne_nil d line) hrest]

/-- A line that is not empty is a member of the lines of its text. -/
theorem IsLine.lines_eq {before line after : List Char} (h : IsLine before line after)
    (hline : line ≠ []) :
    lines (before ++ (line ++ after)) = lines before ++ line :: lines after := by
  obtain ⟨init, c, rfl⟩ : ∃ init c, line = init ++ [c] :=
    ⟨line.dropLast, line.getLast hline, (List.dropLast_concat_getLast hline).symm⟩
  have hdrop : (init ++ [c]).dropLast = init := List.dropLast_concat
  have hinit : '\n' ∉ init := hdrop ▸ h.inner
  rw [lines_append h.starts]
  congr 1
  by_cases hc : c = '\n'
  · rw [hc, List.append_assoc, List.singleton_append, lines_append_newline hinit]
  · obtain rfl : after = [] := by
      refine h.ends.resolve_left fun hlast => hc ?_
      rw [List.getLast?_concat] at hlast
      exact Option.some.inj hlast
    have hnone : '\n' ∉ init ++ [c] := by
      rw [List.mem_append, List.mem_singleton, not_or]
      exact ⟨hinit, Ne.symm hc⟩
    rw [List.append_nil, lines_eq_singleton hline hnone]
    rfl

/-! ## The search by characters -/

/-- The bytes of some pieces in a row are divided among the pieces. -/
theorem exists_piece {pieces : List (List Char)} {offset : Nat}
    (h : offset < byteLength pieces.flatten) :
    ∃ earlier piece later column, pieces = earlier ++ piece :: later ∧
      byteLength earlier.flatten + column = offset ∧ column < byteLength piece := by
  induction pieces generalizing offset with
  | nil => exact absurd h (Nat.not_lt_zero offset)
  | cons first pieces ih =>
    rw [List.flatten_cons, byteLength_append] at h
    by_cases hfirst : offset < byteLength first
    · exact ⟨[], first, pieces, offset, rfl, Nat.zero_add offset, hfirst⟩
    · have hrest : offset - byteLength first < byteLength pieces.flatten := by omega
      obtain ⟨earlier, piece, later, column, rfl, hcolumn, hlt⟩ := ih hrest
      refine ⟨first :: earlier, piece, later, column, rfl, ?_, hlt⟩
      rw [List.flatten_cons, byteLength_append]
      omega

/-- No piece holds a byte past the end. -/
theorem locate?_eq_none {pieces : List (List Char)} {offset : Nat}
    (h : byteLength pieces.flatten ≤ offset) : locate? pieces offset = none := by
  induction pieces generalizing offset with
  | nil => rfl
  | cons first pieces ih =>
    rw [List.flatten_cons, byteLength_append] at h
    rw [locate?, if_neg (by omega)]
    exact ih (by omega)

/-- The search for a byte finds the line that holds it, and nothing else. -/
theorem lineAt?_eq_some_iff {source : String} {offset : Nat} {place : LineColumn} :
    lineAt? source offset = some place ↔
      ∃ before after, before ++ (place.line.toList ++ after) = source.toList ∧
        IsLine before place.line.toList after ∧ byteLength before + place.column = offset ∧
        place.column < byteLength place.line.toList := by
  unfold lineAt?
  constructor
  · intro h
    by_cases hoffset : offset < byteLength (lines source.toList).flatten
    · obtain ⟨earlier, piece, later, column, hlines, rfl, hcolumn⟩ := exists_piece hoffset
      rw [hlines, locate?_append hcolumn] at h
      cases h
      rw [String.toList_ofList]
      refine ⟨earlier.flatten, later.flatten, ?_, isLine_of_lines_eq hlines, rfl, hcolumn⟩
      rw [← flatten_lines source.toList, hlines, List.flatten_append, List.flatten_cons]
    · rw [locate?_eq_none (Nat.le_of_not_lt hoffset)] at h
      cases h
  · rintro ⟨before, after, happend, hline, rfl, hcolumn⟩
    have hne : place.line.toList ≠ [] := by
      rintro hnil
      rw [hnil] at hcolumn
      exact absurd hcolumn (Nat.not_lt_zero _)
    have hfound := locate?_append hcolumn (lines before) (lines after)
    rw [flatten_lines, ← hline.lines_eq hne, happend, String.ofList_toList] at hfound
    exact hfound

/-- The search finds nothing exactly for the offsets past the end. -/
theorem lineAt?_eq_none_iff {source : String} {offset : Nat} :
    lineAt? source offset = none ↔ source.utf8ByteSize ≤ offset := by
  rw [utf8ByteSize_eq, ← flatten_lines source.toList]
  constructor
  · intro h
    refine Nat.le_of_not_lt fun hoffset => ?_
    obtain ⟨earlier, piece, later, column, hlines, rfl, hcolumn⟩ := exists_piece hoffset
    rw [lineAt?, hlines, locate?_append hcolumn] at h
    cases h
  · exact locate?_eq_none

/-! ## The search by bytes -/

/-- A newline stands at an offset of a text. -/
def NewlineAt (text : List Char) (offset : Nat) : Prop :=
  slice? text offset (offset + 1) = some ['\n']

/-- A newline stands behind the text of its offset. -/
theorem newlineAt_iff {text : List Char} {offset : Nat} :
    NewlineAt text offset ↔
      ∃ before after, before ++ '\n' :: after = text ∧ byteLength before = offset := by
  rw [NewlineAt, slice?_eq_some_iff]
  constructor
  · rintro ⟨before, after, happend, hbefore, -⟩
    exact ⟨before, after, happend, hbefore⟩
  · rintro ⟨before, after, happend, hbefore⟩
    exact ⟨before, after, happend, hbefore, rfl⟩

/-- A line and a column are the place of an offset in a source: the line is the slice of the source
that starts the column before the offset, it reaches beyond the offset, it starts at the start of
the source or directly behind a newline, no byte of it but the last one is a newline, and the last
one is, unless the source ends there. -/
structure IsLineOf (source : String) (offset : Nat) (place : LineColumn) : Prop where
  column_le : place.column ≤ offset
  column_lt : place.column < place.line.utf8ByteSize
  slice_eq : slice? source.toList (offset - place.column)
    (offset - place.column + place.line.utf8ByteSize) = some place.line.toList
  starts : offset - place.column = 0 ∨
    ∃ newline, NewlineAt source.toList newline ∧ newline + 1 = offset - place.column
  inner : '\n' ∉ place.line.toList.dropLast
  ends : place.line.toList.getLast? = some '\n' ∨
    offset - place.column + place.line.utf8ByteSize = source.utf8ByteSize

/-- Of two beginnings of a text, the one with fewer bytes is a beginning of the other one. -/
theorem exists_append_of_byteLength_le {left left' right right' : List Char}
    (happend : left ++ right = left' ++ right') (h : byteLength left ≤ byteLength left') :
    ∃ between, left' = left ++ between ∧ right = between ++ right' := by
  rcases List.append_eq_append_iff.1 happend with hbetween | ⟨between, rfl, rfl⟩
  · exact hbetween
  · rw [byteLength_append] at h
    obtain rfl : between = [] := byteLength_eq_zero_iff.1 (by omega)
    exact ⟨[], by rw [List.append_nil, List.append_nil], rfl⟩

/-- A text is empty or ends in a newline exactly if it has no bytes or its last byte is a newline.
-/
theorem starts_iff {before rest : List Char} :
    (before = [] ∨ before.getLast? = some '\n') ↔
      (byteLength before = 0 ∨
        ∃ newline, NewlineAt (before ++ rest) newline ∧ newline + 1 = byteLength before) := by
  refine or_congr byteLength_eq_zero_iff.symm ?_
  rw [List.getLast?_eq_some_iff]
  constructor
  · rintro ⟨init, rfl⟩
    refine ⟨byteLength init, newlineAt_iff.2 ⟨init, rest, ?_, rfl⟩, ?_⟩
    · rw [List.append_assoc, List.singleton_append]
    · rw [byteLength_append]
      rfl
  · rintro ⟨newline, hnewline, hlength⟩
    obtain ⟨init, tail, happend, rfl⟩ := newlineAt_iff.1 hnewline
    have happend' : (init ++ ['\n']) ++ tail = before ++ rest := by
      rw [List.append_assoc, List.singleton_append, happend]
    have hlength' : byteLength (init ++ ['\n']) = byteLength before := by
      rw [byteLength_append, ← hlength]
      rfl
    obtain ⟨between, rfl, -⟩ :=
      exists_append_of_byteLength_le happend' (Nat.le_of_eq hlength')
    rw [byteLength_append (init ++ ['\n'])] at hlength'
    obtain rfl : between = [] := byteLength_eq_zero_iff.1 (by omega)
    exact ⟨init, List.append_nil _⟩

/-- A place of an offset is a line with what stands before it and behind it. -/
theorem isLineOf_iff {source : String} {offset : Nat} {place : LineColumn} :
    IsLineOf source offset place ↔
      ∃ before after, before ++ (place.line.toList ++ after) = source.toList ∧
        IsLine before place.line.toList after ∧ byteLength before + place.column = offset ∧
        place.column < byteLength place.line.toList := by
  have hline := utf8ByteSize_eq place.line
  have hsource := utf8ByteSize_eq source
  constructor
  · rintro ⟨hle, hlt, hslice, hstarts, hinner, hends⟩
    obtain ⟨before, after, happend, hbefore, -⟩ := slice?_eq_some_iff.1 hslice
    rw [← happend, ← hbefore] at hstarts
    refine ⟨before, after, happend, ⟨starts_iff.2 hstarts, hinner, hends.imp_right fun hend => ?_⟩,
      by omega, hline ▸ hlt⟩
    rw [hsource, ← happend, byteLength_append, byteLength_append] at hend
    exact byteLength_eq_zero_iff.1 (by omega)
  · rintro ⟨before, after, happend, hisLine, rfl, hlt⟩
    have hstart : byteLength before + place.column - place.column = byteLength before :=
      Nat.add_sub_cancel _ _
    refine ⟨Nat.le_add_left _ _, hline ▸ hlt, ?_, ?_, hisLine.inner, ?_⟩
    · rw [hstart]
      exact slice?_eq_some_iff.2 ⟨before, after, happend, rfl, by rw [hline]⟩
    · rw [hstart, ← happend]
      exact starts_iff.1 hisLine.starts
    · refine hisLine.ends.imp_right fun hafter => ?_
      rw [hstart, hsource, ← happend, hafter, List.append_nil, byteLength_append, hline]

/-- The search finds the place of an offset, and nothing else. -/
theorem lineAt?_eq_some_iff_isLineOf {source : String} {offset : Nat} {place : LineColumn} :
    lineAt? source offset = some place ↔ IsLineOf source offset place :=
  lineAt?_eq_some_iff.trans isLineOf_iff.symm

/-! ## Offsets in one line -/

/-- No newline stands in a line before its last byte. -/
theorem IsLine.not_newlineAt {before line after : List Char} (h : IsLine before line after)
    {newline : Nat} (hstart : byteLength before ≤ newline)
    (hend : newline + 1 < byteLength before + byteLength line) :
    ¬ NewlineAt (before ++ (line ++ after)) newline := by
  intro hnewline
  obtain ⟨front, tail, happend, rfl⟩ := newlineAt_iff.1 hnewline
  obtain ⟨between, rfl, hrest⟩ := exists_append_of_byteLength_le happend.symm hstart
  rw [byteLength_append] at hend
  have hrest' : (between ++ ['\n']) ++ tail = line ++ after := by
    rw [List.append_assoc, List.singleton_append, hrest]
  have hle : byteLength (between ++ ['\n']) ≤ byteLength line := by
    rw [byteLength_append, show byteLength ['\n'] = 1 from rfl]
    omega
  obtain ⟨others, rfl, -⟩ := exists_append_of_byteLength_le hrest' hle
  -- other characters of the line follow the newline
  cases others with
  | nil =>
    rw [List.append_nil, byteLength_append, show byteLength ['\n'] = 1 from rfl] at hend
    omega
  | cons c others =>
    apply h.inner
    rw [List.dropLast_append_cons]
    exact List.mem_append_left _ (List.mem_append_right _ List.mem_cons_self)

/-- Two offsets lie in lines with the same start exactly if no newline stands between them, the
first one included. -/
theorem start_eq_iff {source : String} {first second : Nat} {place place' : LineColumn}
    (h : IsLineOf source first place) (h' : IsLineOf source second place')
    (hle : first ≤ second) :
    first - place.column = second - place'.column ↔
      ∀ newline, first ≤ newline → newline < second → ¬ NewlineAt source.toList newline := by
  obtain ⟨before', after', happend', hline', hsecond, hlt'⟩ := isLineOf_iff.1 h'
  constructor
  · intro hstart newline hfirst hnewline
    rw [← happend']
    have hcolumn := h.column_le
    exact hline'.not_newlineAt (by omega) (by omega)
  · intro hnone
    -- the line of the second offset starts before the first one, so it is the line of both
    have hbefore : byteLength before' ≤ first := by
      rw [← Nat.not_lt]
      intro hlt
      rcases hline'.starts with rfl | hlast
      · exact Nat.not_lt_zero first hlt
      · obtain ⟨newline, hnewline, hlength⟩ :=
          (starts_iff.1 (Or.inr hlast)).resolve_left (by omega)
        rw [happend'] at hnewline
        exact hnone newline (by omega) (by omega) hnewline
    have hplace : IsLineOf source first ⟨place'.line, first - byteLength before'⟩ :=
      isLineOf_iff.2 ⟨before', after', happend', hline', by dsimp only; omega,
        by dsimp only; omega⟩
    have hsame : some place = some ⟨place'.line, first - byteLength before'⟩ := by
      rw [← lineAt?_eq_some_iff_isLineOf.2 h, lineAt?_eq_some_iff_isLineOf.2 hplace]
    cases hsame
    dsimp only
    omega

/-- **The search finds the line of every byte.** It finds nothing exactly for the offsets past the
end of a source. For any other offset, which may lie inside a character, it finds the one line and
column that are its place. Two offsets that have places lie in lines with the same start exactly if
no newline stands between them, the smaller one included and the larger one excluded. -/
theorem lineAt?_isLineOf (source : String) :
    (∀ offset, lineAt? source offset = none ↔ source.utf8ByteSize ≤ offset) ∧
    (∀ offset place, lineAt? source offset = some place ↔ IsLineOf source offset place) ∧
    ∀ first second, first ≤ second → ∀ place place', lineAt? source first = some place →
      lineAt? source second = some place' →
        (first - place.column = second - place'.column ↔
          ∀ newline, first ≤ newline → newline < second → ¬ NewlineAt source.toList newline) := by
  refine ⟨fun offset => lineAt?_eq_none_iff, fun offset place => lineAt?_eq_some_iff_isLineOf,
    fun first second hle place place' hplace hplace' => ?_⟩
  exact start_eq_iff (lineAt?_eq_some_iff_isLineOf.1 hplace)
    (lineAt?_eq_some_iff_isLineOf.1 hplace') hle

-- the second byte of a character of two bytes
example : lineAt? "a\né\nb" 3 = some ⟨"é\n", 1⟩ := by decide

end MiniPascal.Text
