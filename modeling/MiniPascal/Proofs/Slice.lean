import MiniPascal.Text.Utf8

/-!
# Slices of a text

A slice is the part of a text between two byte offsets, both of which have to fall between
characters. Main statement: a slice is what stands behind a beginning of the one length and ends
with a beginning of the other (`slice?_eq_some_iff`).
-/

namespace MiniPascal.Text

/-! ## Taking and dropping bytes -/

/-- The first `n` bytes of a text. There is nothing to answer when the text is shorter than that, or
when the cut falls inside a character. -/
def takeBytes? : Nat → List Char → Option (List Char)
  | 0, _ => some []
  | _ + 1, [] => none
  | n + 1, c :: rest =>
    if c.utf8Size ≤ n + 1 then (takeBytes? (n + 1 - c.utf8Size) rest).map (c :: ·) else none

/-- A text without bytes is empty. -/
theorem byteLength_eq_zero_iff {text : List Char} : byteLength text = 0 ↔ text = [] := by
  cases text with
  | nil => simp
  | cons c rest =>
    have hpos : 0 < c.utf8Size := Char.utf8Size_pos c
    simp
    omega

/-- Taking bytes gives the beginning of that length. -/
theorem takeBytes?_eq_some_iff {n : Nat} {text part : List Char} :
    takeBytes? n text = some part ↔ ∃ rest, part ++ rest = text ∧ byteLength part = n := by
  fun_induction takeBytes? n text generalizing part with
  | case1 text =>
    rw [Option.some.injEq]
    constructor
    · rintro rfl
      exact ⟨text, rfl, rfl⟩
    · rintro ⟨rest, _, hlength⟩
      exact (byteLength_eq_zero_iff.1 hlength).symm
  | case2 n =>
    constructor
    · intro h
      cases h
    · rintro ⟨rest, happend, hlength⟩
      rw [(List.append_eq_nil_iff.1 happend).1] at hlength
      simp at hlength
  | case3 n c text hle ih =>
    rw [Option.map_eq_some_iff]
    constructor
    · rintro ⟨tail, htail, rfl⟩
      obtain ⟨rest, rfl, hlength⟩ := ih.1 htail
      refine ⟨rest, rfl, ?_⟩
      rw [byteLength_cons, hlength]
      omega
    · rintro ⟨rest, happend, hlength⟩
      cases part with
      | nil => simp at hlength
      | cons d tail =>
        rw [List.cons_append, List.cons.injEq] at happend
        obtain ⟨rfl, rfl⟩ := happend
        rw [byteLength_cons] at hlength
        exact ⟨tail, ih.2 ⟨rest, rfl, by omega⟩, rfl⟩
  | case4 n c text hlt =>
    constructor
    · intro h
      cases h
    · rintro ⟨rest, happend, hlength⟩
      cases part with
      | nil => simp at hlength
      | cons d tail =>
        rw [List.cons_append, List.cons.injEq] at happend
        obtain ⟨rfl, -⟩ := happend
        rw [byteLength_cons] at hlength
        omega

/-- Dropping bytes leaves what stands behind the beginning of that length. -/
theorem dropBytes?_eq_some_iff {n : Nat} {text rest : List Char} :
    dropBytes? n text = some rest ↔ ∃ before, before ++ rest = text ∧ byteLength before = n := by
  constructor
  · intro h
    fun_induction dropBytes? n text with
    | case1 text =>
      cases h
      exact ⟨[], rfl, rfl⟩
    | case2 n => cases h
    | case3 n c text hle ih =>
      obtain ⟨before, rfl, hlength⟩ := ih h
      refine ⟨c :: before, rfl, ?_⟩
      rw [byteLength_cons, hlength]
      omega
    | case4 => cases h
  · rintro ⟨before, rfl, rfl⟩
    exact dropBytes?_byteLength_append before rest

/-! ## Slices -/

/-- The part of a text between two byte offsets. -/
def slice? (text : List Char) (start stop : Nat) : Option (List Char) :=
  if start ≤ stop then (dropBytes? start text).bind (takeBytes? (stop - start)) else none

/-- A slice stands between a beginning of the text and what is left of it. -/
theorem slice?_eq_some_iff {text part : List Char} {start stop : Nat} :
    slice? text start stop = some part ↔
      ∃ before after, before ++ (part ++ after) = text ∧ byteLength before = start ∧
        start + byteLength part = stop := by
  unfold slice?
  split
  · next hle =>
    rw [Option.bind_eq_some_iff]
    constructor
    · rintro ⟨rest, hdrop, htake⟩
      obtain ⟨before, rfl, hbefore⟩ := dropBytes?_eq_some_iff.1 hdrop
      obtain ⟨after, rfl, hpart⟩ := takeBytes?_eq_some_iff.1 htake
      exact ⟨before, after, rfl, hbefore, by omega⟩
    · rintro ⟨before, after, rfl, hbefore, hpart⟩
      refine ⟨part ++ after, dropBytes?_eq_some_iff.2 ⟨before, rfl, hbefore⟩, ?_⟩
      exact takeBytes?_eq_some_iff.2 ⟨after, rfl, by omega⟩
  · next hlt =>
    constructor
    · intro h
      cases h
    · rintro ⟨before, after, rfl, hbefore, hpart⟩
      omega

end MiniPascal.Text
