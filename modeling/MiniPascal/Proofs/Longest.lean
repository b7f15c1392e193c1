import MiniPascal.Rule.Lexeme
import Mathlib.Data.List.TakeWhile

/-!
# Longest beginnings

A pattern is judged by a language, a set of texts: it should cut off the longest beginning of a
text that lies in the language, and give up only where no beginning does. This module states that
condition and shows it for runs and words.
-/

namespace MiniPascal

namespace Text

variable {language : List Char → Prop} {cut? : List Char → Option (List Char × List Char)}

/-! ## Patterns and their languages -/

/-- The text `taken` is the longest beginning of `text` that lies in a language. -/
structure IsLongest (language : List Char → Prop) (text taken : List Char) : Prop where
  mem : language taken
  isPrefix : taken <+: text
  length_le : ∀ {other : List Char}, language other → other <+: text →
    other.length ≤ taken.length

/-- There is at most one longest beginning. -/
theorem IsLongest.unique {text first second : List Char} (hfirst : IsLongest language text first)
    (hsecond : IsLongest language text second) : first = second := by
  have hle := hsecond.length_le hfirst.mem hfirst.isPrefix
  have hge := hfirst.length_le hsecond.mem hsecond.isPrefix
  have hbegin := List.prefix_of_prefix_length_le hfirst.isPrefix hsecond.isPrefix hle
  exact hbegin.eq_of_length_le hge

/-- A pattern cuts off the longest beginning in a language, if some beginning lies in it. -/
structure CutsLongest (cut? : List Char → Option (List Char × List Char))
    (language : List Char → Prop) : Prop where
  append_eq : ∀ {text taken rest : List Char}, cut? text = some (taken, rest) →
    taken ++ rest = text
  isLongest : ∀ {text taken rest : List Char}, cut? text = some (taken, rest) →
    IsLongest language text taken
  isSome : ∀ {word : List Char} (rest : List Char), language word → (cut? (word ++ rest)).isSome

namespace CutsLongest

/-- The cut of a text is its longest beginning in the language, together with what follows it. -/
theorem eq_some_iff (h : CutsLongest cut? language) {text taken rest : List Char} :
    cut? text = some (taken, rest) ↔ IsLongest language text taken ∧ taken ++ rest = text := by
  constructor
  · intro hcut
    exact ⟨h.isLongest hcut, h.append_eq hcut⟩
  · rintro ⟨hlongest, rfl⟩
    -- there is a cut, and what it takes can only be the longest beginning
    obtain ⟨⟨other, tail⟩, hcut⟩ := Option.isSome_iff_exists.1 (h.isSome rest hlongest.mem)
    have hother : other = taken := (h.isLongest hcut).unique hlongest
    have happend := h.append_eq hcut
    rw [hother] at hcut happend
    rw [hcut, List.append_cancel_left happend]

/-- There is no cut exactly where no beginning of the text lies in the language. -/
theorem eq_none_iff (h : CutsLongest cut? language) {text : List Char} :
    cut? text = none ↔ ∀ word, word <+: text → ¬ language word := by
  constructor
  · rintro hcut word ⟨rest, rfl⟩ hword
    have hsome := h.isSome rest hword
    rw [hcut] at hsome
    simp at hsome
  · intro hnone
    cases hcut : cut? text with
    | none => rfl
    | some pair =>
      have hlongest := h.isLongest hcut
      exact absurd hlongest.mem (hnone _ hlongest.isPrefix)

/-- A text of the language is cut off as a whole. -/
theorem cut?_of_mem (h : CutsLongest cut? language) {word : List Char} (hword : language word) :
    cut? word = some (word, []) :=
  h.eq_some_iff.2 ⟨⟨hword, List.prefix_rfl, fun _ hbegin => hbegin.length_le⟩,
    List.append_nil word⟩

end CutsLongest

/-! ## Beginnings of two texts in a row -/

/-- A beginning of two texts in a row is one of the first, or it reaches over the first character of
the second. -/
theorem prefix_or_exists_of_prefix_append {word text rest : List Char} (h : word <+: text ++ rest) :
    word <+: text ∨ ∃ c tail, rest.head? = some c ∧ word = text ++ c :: tail := by
  rcases List.prefix_or_prefix_of_prefix h (List.prefix_append text rest) with
    hshort | ⟨tail, rfl⟩
  · exact Or.inl hshort
  · cases tail with
    | nil => exact Or.inl (by simp)
    | cons c tail =>
      obtain ⟨after, rfl⟩ := (List.prefix_append_right_inj text).1 h
      exact Or.inr ⟨c, tail, rfl, rfl⟩

/-- A pattern cuts the same off a text if a character follows that no text of its language holds. -/
theorem CutsLongest.cut?_append_cons (h : CutsLongest cut? language) {c : Char}
    (hc : ∀ word, language word → c ∉ word) (text rest : List Char) :
    cut? (text ++ c :: rest) =
      (cut? text).map (Prod.map id (· ++ c :: rest)) := by
  -- a word that reached into the rest would hold the character
  have hbegin : ∀ word, language word → word <+: text ++ c :: rest → word <+: text := by
    intro word hword hlong
    rcases prefix_or_exists_of_prefix_append hlong with hshort | ⟨d, tail, hd, rfl⟩
    · exact hshort
    · cases hd
      exact absurd (by simp) (hc _ hword)
  cases hcut : cut? text with
  | none =>
    rw [Option.map_none, h.eq_none_iff]
    intro word hlong hword
    exact h.eq_none_iff.1 hcut word (hbegin word hword hlong) hword
  | some pair =>
    obtain ⟨taken, left⟩ := pair
    obtain ⟨hlongest, happend⟩ := h.eq_some_iff.1 hcut
    rw [Option.map_some, Prod.map_apply, id_eq, h.eq_some_iff]
    refine ⟨⟨hlongest.mem, hlongest.isPrefix.trans (List.prefix_append _ _), ?_⟩, ?_⟩
    · intro other hother hlong
      exact hlongest.length_le hother (hbegin other hother hlong)
    · rw [← List.append_assoc, happend]

/-! ## Runs and words -/

/-- Characters of a class at the start of a text lie in the run that it starts with. -/
theorem prefix_takeWhile {p : Char → Bool} {word text : List Char} (hword : ∀ c ∈ word, p c = true)
    (h : word <+: text) : word <+: text.takeWhile p := by
  obtain ⟨rest, rfl⟩ := h
  rw [List.takeWhile_append_of_pos hword]
  exact List.prefix_append _ _

/-- The pattern of runs cuts off the longest run. -/
theorem cutsLongest_run? (p : Char → Bool) :
    CutsLongest (run? p) fun word => word ≠ [] ∧ ∀ c ∈ word, p c = true where
  append_eq := append_of_run?
  isLongest := by
    intro text taken rest h
    have hne := ne_nil_of_run? h
    have htaken : taken = text.takeWhile p := by
      unfold run? at h
      split at h
      · simp at h
      · next hrun =>
        rw [hrun]
        exact (congrArg Prod.fst (Option.some.inj h)).symm
    subst htaken
    refine ⟨⟨hne, fun c hc => ?_⟩, List.takeWhile_prefix p, ?_⟩
    · exact List.mem_takeWhile_imp hc
    · intro other hother hbegin
      exact (prefix_takeWhile hother.2 hbegin).length_le
  isSome := by
    rintro word rest ⟨hne, hword⟩
    have hbegin := prefix_takeWhile hword (List.prefix_append word rest)
    unfold run?
    split
    · next hrun =>
      rw [hrun, List.prefix_nil] at hbegin
      exact absurd hbegin hne
    · rfl

/-- The pattern of a word cuts off this word. -/
theorem cutsLongest_word? (word : List Char) : CutsLongest (word? word) (· = word) where
  append_eq := append_of_word?
  isLongest := by
    intro text taken rest h
    have happend := append_of_word? h
    obtain ⟨_, _, hpair⟩ := Option.map_eq_some_iff.1 h
    cases hpair
    refine ⟨rfl, ⟨rest, happend⟩, ?_⟩
    rintro other rfl _
    exact le_refl _
  isSome := by
    rintro _ rest rfl
    rw [word?, after?_eq_some_iff.2 rfl]
    rfl

end Text

end MiniPascal
