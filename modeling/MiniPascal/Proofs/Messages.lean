import MiniPascal.Error
import MiniPascal.Proofs.Digits
import MiniPascal.Text.Cut

/-!
# Messages of errors

The message of an error tells which error it is, and it stays on one line. What stands for a
character between apostrophes can be read back in front of any text (`readEscaped?_escaped`), so
that a message can be taken apart from the left, and all characters of a message are visible
(`Error.isVisible_of_mem_message`). Main statement: `Error.message_identifies`.
-/

namespace MiniPascal

open Text

namespace Text

/-! ## Hexadecimal digits -/

/-- The hexadecimal digits, each at the place of its value. -/
def hexDigits : List Char :=
  "0123456789abcdef".toList

/-- The number that a row of hexadecimal digits denotes. -/
def ofHexDigits (text : List Char) : Nat :=
  text.foldl (fun n c => 16 * n + hexDigits.idxOf c) 0

/-- A digit at the end of a row adds its value to sixteen times the number in front of it. -/
theorem ofHexDigits_concat (text : List Char) (c : Char) :
    ofHexDigits (text ++ [c]) = 16 * ofHexDigits text + hexDigits.idxOf c := by
  rw [ofHexDigits, List.foldl_append]
  rfl

/-- A digit stands at the place of its value. -/
theorem idxOf_digitChar {d : Nat} (h : d < 16) : hexDigits.idxOf d.digitChar = d := by
  have hall : ∀ d < 16, hexDigits.idxOf d.digitChar = d := by decide
  exact hall d h

/-- In base sixteen a number is written with hexadecimal digits, and they denote it. -/
theorem ofHexDigits_toDigits (n : Nat) :
    (∀ c ∈ Nat.toDigits 16 n, c ∈ hexDigits) ∧ ofHexDigits (Nat.toDigits 16 n) = n := by
  have hdigit : ∀ {d}, d < 16 → d.digitChar ∈ hexDigits := fun {d} hd =>
    List.idxOf_lt_length_iff.1 (by rw [idxOf_digitChar hd]; exact hd)
  induction n using Nat.strongRecOn with
  | ind n ih =>
    by_cases hn : n < 16
    · rw [Nat.toDigits_of_lt_base hn]
      refine ⟨List.forall_mem_singleton.2 (hdigit hn), ?_⟩
      exact (Nat.zero_add _).trans (idxOf_digitChar hn)
    · -- the last digit is the remainder, and those in front of it are the digits of the quotient
      have hlast : n % 16 < 16 := Nat.mod_lt n (by decide)
      obtain ⟨hfront, hvalue⟩ := ih (n / 16) (by omega)
      rw [Nat.toDigits_of_base_le (by decide) (Nat.le_of_not_lt hn)]
      refine ⟨List.forall_mem_append.2 ⟨hfront, List.forall_mem_singleton.2 (hdigit hlast)⟩, ?_⟩
      rw [ofHexDigits_concat, hvalue, idxOf_digitChar hlast, Nat.div_add_mod]

/-! ## Visible and control characters -/

/-- The characters that a plain text is made of: the blank and those behind it up to the tilde. -/
def isPrintable (c : Char) : Bool :=
  32 ≤ c.toNat && c.toNat < 127

/-- They are visible. -/
theorem isVisible_of_isPrintable {c : Char} (h : isPrintable c = true) : isVisible c = true := by
  simp only [isPrintable, Bool.and_eq_true, decide_eq_true_eq] at h
  -- all ranges but those of the control characters lie behind the tilde
  let others := [formatRanges, unassignedRanges, privateUseRanges, separatorRanges, extenderRanges]
  have hbehind : ∀ ranges ∈ others, ∀ range ∈ ranges, 127 ≤ range.1 := by decide +kernel
  have hothers : ∀ ranges ∈ others, inRanges ranges c.toNat = false := by
    intro ranges hranges
    rw [← Bool.not_eq_true, inRanges_iff]
    rintro ⟨range, hrange, hlow, -⟩
    exact absurd (Nat.le_trans (hbehind ranges hranges range hrange) hlow) (Nat.not_le.2 h.2)
  have hcontrol : inRanges controlRanges c.toNat = false := by
    rw [← Bool.not_eq_true, inRanges_iff]
    rintro ⟨range, hrange, hlow, hhigh⟩
    rcases List.mem_pair.1 hrange with rfl | rfl <;> omega
  simp [isVisible, hcontrol, hothers, others]

/-- Digits are among them. -/
theorem isPrintable_of_isDigit {c : Char} (h : c.isDigit = true) : isPrintable c = true := by
  obtain ⟨hlow, hhigh⟩ := Char.isDigit_iff_toNat.1 h
  have hlow : 48 ≤ c.toNat := hlow
  have hhigh : c.toNat ≤ 57 := hhigh
  simp only [isPrintable, Bool.and_eq_true, decide_eq_true_eq]
  omega

/-- A text of such characters is visible. -/
theorem isVisible_of_all {text : List Char} (h : text.all isPrintable = true) :
    ∀ c ∈ text, isVisible c = true := fun c hc =>
  isVisible_of_isPrintable (List.all_eq_true.1 h c hc)

/-- The control characters: those in front of the blank, and a second row of them that begins behind
the tilde. -/
def isControl (c : Char) : Bool :=
  c.toNat < 0x20 || (0x7f ≤ c.toNat && c.toNat < 0xa0)

/-- None of them is visible. -/
theorem isControl_eq_false_of_isVisible {c : Char} (h : isVisible c = true) :
    isControl c = false := by
  have hcontrol : inRanges controlRanges c.toNat = false := by
    simp only [isVisible, Bool.not_eq_true', Bool.or_eq_false_iff] at h
    exact h.1.1.1.1.1
  rw [← Bool.not_eq_true, inRanges_iff] at hcontrol
  rw [← Bool.not_eq_true, isControl, Bool.or_eq_true, Bool.and_eq_true]
  simp only [decide_eq_true_eq]
  rintro (hlow | ⟨hlow, hhigh⟩)
  · exact hcontrol ⟨(0x00, 0x1f), by decide, Nat.zero_le _, Nat.le_of_lt_succ hlow⟩
  · exact hcontrol ⟨(0x7f, 0x9f), by decide, hlow, Nat.le_of_lt_succ hhigh⟩

/-! ## Characters that are written out -/

/-- The characters that have a short form, each with the one that follows its backslash. -/
def shortForms : List (Char × Char) :=
  [('0', '\x00'), ('t', '\t'), ('n', '\n'), ('r', '\r'), ('\'', '\''), ('\\', '\\')]

/-- The texts that stand for a character: itself, its short form, or its code point. -/
inductive StandsForChar (c : Char) : List Char → Prop where
  | itself (hvisible : isVisible c = true) (hbackslash : c ≠ '\\') : StandsForChar c [c]
  | short {d : Char} (hform : (d, c) ∈ shortForms) : StandsForChar c ['\\', d]
  | code : StandsForChar c ('\\' :: 'u' :: '\x7b' :: (Nat.toDigits 16 c.toNat ++ ['\x7d']))

/-- What is written between apostrophes stands for the character. -/
theorem standsForChar_escaped (c : Char) : StandsForChar c (escaped c) := by
  unfold escaped
  split
  case h_7 hbackslash =>
    split
    · next hvisible => exact .itself hvisible hbackslash
    · exact .code
  all_goals exact .short (by decide)

/-- Reads a character off a text that goes on behind it. -/
def readEscaped? : List Char → Option (Char × List Char)
  | '\\' :: 'u' :: '\x7b' :: text =>
    some (Char.ofNat (ofHexDigits (text.takeWhile (· != '\x7d'))),
      (text.dropWhile (· != '\x7d')).tail)
  | '\\' :: d :: text => (shortForms.lookup d).map fun c => (c, text)
  | c :: text => some (c, text)
  | [] => none

namespace StandsForChar

variable {c : Char} {text : List Char}

/-- A text that stands for a character is read as this character, and up to its end. -/
theorem readEscaped?_append (h : StandsForChar c text) (rest : List Char) :
    readEscaped? (text ++ rest) = some (c, rest) := by
  cases h with
  | itself _ hbackslash =>
    rw [List.singleton_append, readEscaped?]
    · exact fun _ heq => absurd heq hbackslash
    · exact fun _ _ heq => absurd heq hbackslash
  | @short d hform =>
    have hread : ∀ form ∈ shortForms, form.1 ≠ 'u' ∧ shortForms.lookup form.1 = some form.2 := by
      decide
    obtain ⟨hcode, hlookup⟩ := hread (d, c) hform
    rw [List.cons_append, List.singleton_append, readEscaped?, hlookup]
    · rfl
    · exact fun _ heq => absurd heq hcode
  | code =>
    obtain ⟨hdigits, hvalue⟩ := ofHexDigits_toDigits c.toNat
    have hrun : ∀ d ∈ Nat.toDigits 16 c.toNat, (d != '\x7d') = true := by
      intro d hd
      rw [bne_iff_ne]
      rintro rfl
      exact absurd (hdigits _ hd) (by decide)
    have hstops : ∀ d ∈ ('\x7d' :: rest).head?, (d != '\x7d') = false := by
      rintro d ⟨⟩
      rfl
    simp only [List.cons_append, List.append_assoc, List.nil_append, readEscaped?]
    rw [takeWhile_append_of_head? hrun hstops, dropWhile_append_of_head? hrun hstops, hvalue,
      Char.ofNat_toNat, List.tail_cons]

/-- A text that stands for a character is visible. -/
theorem isVisible_of_mem (h : StandsForChar c text) : ∀ d ∈ text, isVisible d = true := by
  cases h with
  | itself hvisible _ => exact List.forall_mem_singleton.2 hvisible
  | @short d hform =>
    have hforms : ∀ form ∈ shortForms, isPrintable form.1 = true := by decide
    apply isVisible_of_all
    rw [List.all_cons, List.all_cons, hforms (d, c) hform]
    rfl
  | code =>
    have hhex : hexDigits.all isPrintable = true := by decide
    apply isVisible_of_all
    simp only [List.all_cons, List.all_append]
    rw [List.all_eq_true.2 fun d hd =>
      List.all_eq_true.1 hhex d ((ofHexDigits_toDigits c.toNat).1 d hd)]
    rfl

end StandsForChar

/-- An escaped character can be read in front of any text. -/
theorem readEscaped?_escaped (c : Char) (rest : List Char) :
    readEscaped? (escaped c ++ rest) = some (c, rest) :=
  (standsForChar_escaped c).readEscaped?_append rest

end Text

/-! ## Messages -/

namespace Error

/-- A message names the character, the line and the offset. -/
theorem toList_message (c : Char) (position : Position) :
    (illegalCharacter c position).message.toList =
      "illegal character ".toList ++ '\'' :: (escaped c ++ '\'' :: (" at line ".toList ++
        (digits position.line ++ ',' :: (" offset ".toList ++ digits position.offset)))) := by
  have hmessage : (illegalCharacter c position).message =
      "illegal character " ++ quoted c ++ " at line " ++ naturalText position.line ++ ", offset "
        ++ naturalText position.offset := rfl
  have hquoted : (quoted c).toList = '\'' :: (escaped c ++ ['\'']) := String.toList_ofList
  have hdigits : ∀ n, (naturalText n).toList = digits n := fun n => String.toList_ofList
  have hcomma : ", offset ".toList = ',' :: " offset ".toList := by decide
  simp only [hmessage, String.toList_append, hquoted, hdigits, hcomma, List.append_assoc,
    List.cons_append, List.nil_append]

/-- An error can be told from its message. -/
theorem message_injective : Function.Injective message := by
  rintro ⟨⟨c⟩, position⟩ ⟨⟨c'⟩, position'⟩ h
  have hlist := congrArg String.toList h
  rw [← illegalCharacter, ← illegalCharacter, toList_message, toList_message] at hlist
  -- the message is taken apart from the left: the character, the line, and the offset
  have hread := congrArg readEscaped? (List.cons.inj (List.append_cancel_left hlist)).2
  rw [readEscaped?_escaped, readEscaped?_escaped, Option.some.injEq, Prod.mk.injEq] at hread
  obtain ⟨rfl, hplace⟩ := hread
  obtain ⟨hline, hoffset⟩ := eq_of_append_cons_eq (notMem_digits rfl _) (notMem_digits rfl _)
    (List.append_cancel_left (List.cons.inj hplace).2)
  obtain ⟨line, offset⟩ := position
  obtain ⟨line', offset'⟩ := position'
  cases digits_injective hline
  cases digits_injective (List.append_cancel_left hoffset)
  rfl

/-- All characters of a message are visible. -/
theorem isVisible_of_mem_message {error : Error} :
    ∀ c ∈ error.message.toList, isVisible c = true := by
  obtain ⟨⟨c⟩, position⟩ := error
  rw [← illegalCharacter, toList_message]
  have hdigits : ∀ n, ∀ d ∈ digits n, isVisible d = true := fun n d hd =>
    isVisible_of_isPrintable (isPrintable_of_isDigit (isDigit_of_mem_digits hd))
  simp only [List.forall_mem_append, List.forall_mem_cons]
  exact ⟨isVisible_of_all (by decide), isVisible_of_isPrintable rfl,
    (standsForChar_escaped c).isVisible_of_mem, isVisible_of_isPrintable rfl,
    isVisible_of_all (by decide), hdigits _, isVisible_of_isPrintable rfl,
    isVisible_of_all (by decide), hdigits _⟩

/-- **Messages identify their errors and stay on one line.** Errors have the same message only if
they are equal, and whatever the character of an error is, its message holds no newline, no carriage
return, no tab and no other control character. -/
theorem message_identifies (first second : Error) :
    (first.message = second.message ↔ first = second) ∧
      ∀ c ∈ first.message.toList, c ∉ ['\n', '\r', '\t'] ∧ isControl c = false := by
  refine ⟨message_injective.eq_iff, fun c hc => ?_⟩
  have hcontrol := isControl_eq_false_of_isVisible (isVisible_of_mem_message c hc)
  refine ⟨fun hmem => ?_, hcontrol⟩
  have hall : ['\n', '\r', '\t'].all isControl = true := by decide
  rw [List.all_eq_true.1 hall c hmem] at hcontrol
  cases hcontrol

end Error

end MiniPascal
