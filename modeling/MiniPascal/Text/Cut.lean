/-!
# Cutting a text after its beginning

A lexical pattern cuts a text in two: the beginning that it takes, and the rest. This module holds
the two plain patterns, a run of characters of a class and a fixed word. Main statements: both cut
without loss (`append_of_run?`, `append_of_word?`).
-/

namespace MiniPascal.Text

/-! ## Runs -/

/-- Cuts a text after its longest beginning of characters from the class `p`, which must not be
empty. -/
def run? (p : Char → Bool) (text : List Char) : Option (List Char × List Char) :=
  match text.takeWhile p with
  | [] => none
  | c :: run => some (c :: run, text.dropWhile p)

/-- A run and its rest make up the text. -/
theorem append_of_run? {p : Char → Bool} {text taken rest : List Char}
    (h : run? p text = some (taken, rest)) : taken ++ rest = text := by
  unfold run? at h
  split at h
  · simp at h
  · next c run hrun =>
    simp only [Option.some.injEq, Prod.mk.injEq] at h
    rw [← h.1, ← h.2, ← hrun, List.takeWhile_append_dropWhile]

/-- A run is not empty. -/
theorem ne_nil_of_run? {p : Char → Bool} {text taken rest : List Char}
    (h : run? p text = some (taken, rest)) : taken ≠ [] := by
  unfold run? at h
  split at h
  · simp at h
  · simp only [Option.some.injEq, Prod.mk.injEq] at h
    simp [← h.1]

/-- What is left behind the characters of a class does not start with one of them. -/
theorem eq_false_of_mem_head?_dropWhile {p : Char → Bool} {text : List Char} :
    ∀ c ∈ (text.dropWhile p).head?, p c = false := by
  intro c hc
  have hnot := List.head?_dropWhile_not p text
  rw [Option.mem_def.1 hc] at hnot
  exact hnot

section Stops

variable {p : Char → Bool} {run rest : List Char}

/-- A run in front of a text that does not go on with its class is all that is taken. -/
theorem takeWhile_append_of_head? (hrun : ∀ c ∈ run, p c = true)
    (hrest : ∀ c ∈ rest.head?, p c = false) : (run ++ rest).takeWhile p = run := by
  rw [List.takeWhile_append_of_pos hrun]
  cases rest with
  | nil => exact List.append_nil run
  | cons c rest => rw [List.takeWhile_cons_of_neg (by simp [hrest c rfl]), List.append_nil]

/-- Behind such a run this text is left. -/
theorem dropWhile_append_of_head? (hrun : ∀ c ∈ run, p c = true)
    (hrest : ∀ c ∈ rest.head?, p c = false) : (run ++ rest).dropWhile p = rest := by
  have happend := (run ++ rest).takeWhile_append_dropWhile (p := p)
  rw [takeWhile_append_of_head? hrun hrest] at happend
  exact List.append_cancel_left happend

end Stops

/-! ## Words -/

/-- What follows a word at the start of a text, if the text starts with it. -/
def after? : List Char → List Char → Option (List Char)
  | [], text => some text
  | _ :: _, [] => none
  | c :: word, d :: text => if c = d then after? word text else none

/-- A text starts with a word exactly when it is the word and something after it. -/
theorem after?_eq_some_iff {word text rest : List Char} :
    after? word text = some rest ↔ word ++ rest = text := by
  induction word generalizing text with
  | nil => simp [after?, eq_comm]
  | cons c word ih =>
    cases text with
    | nil => simp [after?]
    | cons d text =>
      by_cases h : c = d
      · simp [after?, h, ih]
      · simp [after?, h]

/-- Cuts a text after a fixed word. -/
def word? (word text : List Char) : Option (List Char × List Char) :=
  (after? word text).map fun rest => (word, rest)

/-- A word and its rest make up the text. -/
theorem append_of_word? {word text taken rest : List Char}
    (h : word? word text = some (taken, rest)) : taken ++ rest = text := by
  obtain ⟨_, hafter, hpair⟩ := Option.map_eq_some_iff.1 h
  cases hpair
  exact after?_eq_some_iff.1 hafter

end MiniPascal.Text
