import MiniPascal.Proofs.Digits
import MiniPascal.Proofs.Lexemes

/-!
# Runs of digits behind a sharp sign

A numeral takes no leading zeros and no trailing ones, so a run of digits may be left in the middle.
What is left of it then starts no lexeme. Main statement: behind a sharp sign a run of digits is
taken as a whole, up to zeros that no numeral can hold, and there the lexer fails; so no token that
comes of a source is followed by a digit (`Lexer.takesDigits_of_comesTo`).
-/

namespace MiniPascal

open Text Numeral

variable {σ η : Type}

/-! ## Runs of digits -/

/-- Digits in front of a text that does not go on with one. -/
structure IsDigitRun (digits rest : List Char) : Prop where
  ne_nil : digits ≠ []
  isDigit : ∀ d ∈ digits, d.isDigit = true
  stops : ∀ d ∈ rest.head?, d.isDigit = false

/-- A text goes on with a point and a digit. -/
def StartsFraction (text : List Char) : Prop :=
  ∃ d tail, text = '.' :: d :: tail ∧ d.isDigit = true

/-- The digits of a written number are a run in front of a text that starts with none. -/
theorem isDigitRun_digits (n : Nat) {rest : List Char}
    (hstops : ∀ d ∈ rest.head?, d.isDigit = false) : IsDigitRun (digits n) rest :=
  ⟨digits_ne_nil n, fun _ hd => isDigit_of_mem_digits hd, hstops⟩

namespace IsDigitRun

variable {digits rest : List Char}

/-- Without leading zeros a run of digits is cut off as a whole part. -/
theorem whole?_append (h : IsDigitRun digits rest)
    (hzero : digits.head? = some '0' → digits = ['0']) :
    whole? (digits ++ rest) = some (digits, rest) :=
  Numeral.whole?_append ⟨h.ne_nil, h.isDigit, hzero⟩ h.stops

/-- The significant ones of the digits at the start of a text are those of the run. -/
theorem fst_significant_append (h : IsDigitRun digits rest) :
    (significant (digits ++ rest)).1 = dropTrailingZeros digits := by
  obtain ⟨-, hdigit, hstops⟩ := h
  induction digits with
  | nil =>
    cases rest with
    | nil => rfl
    | cons c rest => simp [significant, dropTrailingZeros, hstops c rfl]
  | cons c digits ih =>
    have hc : c.isDigit = true := hdigit c List.mem_cons_self
    have hkept := ih fun d hd => hdigit d (List.mem_cons_of_mem c hd)
    rw [List.cons_append, significant, if_pos hc, dropTrailingZeros, ← hkept]
    cases hsignificant : significant (digits ++ rest) with
    | mk taken after =>
      cases taken with
      | nil => by_cases hzero : c = '0' <;> simp [hzero]
      | cons d taken => rfl

/-- Of a run of digits the significant ones are cut off as a fraction. -/
theorem fraction?_append (h : IsDigitRun digits rest) :
    fraction? (digits ++ rest) = some (significantDigits digits,
      digits.drop (significantDigits digits).length ++ rest) := by
  obtain ⟨count, hcount⟩ := exists_significantDigits_append h.ne_nil
  have hcut : (fraction? (digits ++ rest)).map Prod.fst = some (significantDigits digits) := by
    have happend := significant_append (digits ++ rest)
    have hkept := h.fst_significant_append
    unfold significantDigits at hcount ⊢
    unfold fraction?
    cases hsignificant : significant (digits ++ rest) with
    | mk taken after =>
      rw [hsignificant] at happend hkept
      dsimp only at happend hkept
      rw [← hkept] at hcount ⊢
      cases taken with
      | nil =>
        -- zeros only, of which the cut takes the first one
        rw [List.nil_append] at happend
        rw [happend, ← hcount]
        rfl
      | cons d taken => rfl
  obtain ⟨⟨fraction, after⟩, hfraction, rfl⟩ := Option.map_eq_some_iff.1 hcut
  have hle : (significantDigits digits).length ≤ digits.length := by
    conv_rhs => rw [← hcount, List.length_append]
    exact Nat.le_add_right _ _
  have happend := append_of_fraction? hfraction
  have hafter := congrArg (List.drop (significantDigits digits).length) happend
  rw [List.drop_left, List.drop_append_of_le_length hle] at hafter
  rw [hfraction, hafter]

/-- The significant digits of a run are a fraction. -/
theorem isFraction (h : IsDigitRun digits rest) : IsFraction (significantDigits digits) :=
  (cutsLongest_fraction?.isLongest h.fraction?_append).mem

/-- Behind the significant digits of a run there are zeros. -/
theorem head?_drop_significantDigits (h : IsDigitRun digits rest) :
    ∀ d ∈ (digits.drop (significantDigits digits).length).head?, d = '0' := by
  obtain ⟨count, hcount⟩ := exists_significantDigits_append h.ne_nil
  intro d hd
  generalize significantDigits digits = kept at hcount hd
  rw [← hcount, List.drop_left] at hd
  exact List.eq_of_mem_replicate (List.mem_of_mem_head? hd)

end IsDigitRun

/-! ## First lexemes behind a sharp sign -/

namespace Lexeme

variable {digits rest : List Char}

/-- Where a whole part is cut off and no fraction follows, the first lexeme is an integer. -/
theorem first?_integer (hwhole : whole? (digits ++ rest) = some (digits, rest))
    (hpoint : ¬ StartsFraction rest) :
    first? Rule.all ('#' :: (digits ++ rest)) = some ⟨.integer, '#' :: digits, rest⟩ := by
  rw [first?_eq_some_iff Rule.isOrder_all]
  refine ⟨?_, fun rival hrival => ?_⟩
  · rw [Rule.cut?, Rule.cutInteger?, hwhole]
    rfl
  · rw [Rule.eq_real_of_overrides hrival, (Rule.cutsLongest .real).eq_none_iff]
    rintro _ hbegin ⟨whole, fraction, rfl, hnumber, hfraction⟩
    -- a real would have the same whole part, so that its point and a digit would follow here
    rw [List.cons_append] at hbegin
    obtain ⟨after, happend⟩ := (List.cons_prefix_cons.1 hbegin).2
    rw [List.append_assoc, List.cons_append] at happend
    have hsame := Rule.whole?_append_point hnumber (fraction ++ after)
    rw [happend, hwhole, Option.some.injEq, Prod.mk.injEq] at hsame
    obtain ⟨d, others, rfl⟩ := List.exists_cons_of_ne_nil hfraction.ne_nil
    exact hpoint ⟨d, others ++ after, hsame.2, hfraction.isDigit d List.mem_cons_self⟩

/-- No rule overrides that of reals. -/
theorem first?_real {text word rest : List Char} (h : Rule.cut? .real text = some (word, rest)) :
    first? Rule.all text = some ⟨.real, word, rest⟩ :=
  first?_of_cut? Rule.isOrder_all h (by decide)

end Lexeme

/-- A real is cut off with the significant digits of its fraction. -/
theorem Rule.cut?_real {digits fraction after : List Char}
    (hwhole : whole? (digits ++ '.' :: (fraction ++ after)) =
      some (digits, '.' :: (fraction ++ after)))
    (hrun : IsDigitRun fraction after) :
    cut? .real ('#' :: (digits ++ '.' :: (fraction ++ after))) =
      some ('#' :: digits ++ '.' :: significantDigits fraction,
        fraction.drop (significantDigits fraction).length ++ after) := by
  rw [cut?, cutReal?, hwhole]
  show (fraction? (fraction ++ after)).map _ = _
  rw [hrun.fraction?_append]
  rfl

/-! ## What a lexer takes of digits -/

namespace Lexer

/-- How a lexer takes a run of digits behind a sharp sign. Of a run with leading zeros it takes one
zero, and fails at the digit behind it. Without leading zeros it takes the run and, if a point and a
further run follow, also these up to zeros at the end, at the first of which it fails. Otherwise the
run makes an integer, unless that is too large. -/
structure TakesDigits (lexer : Lexer) (digits rest : List Char) (position : Position) : Prop where
  leadingZero : ∀ d others, digits = '0' :: d :: others →
    let point : Point := ⟨d :: others ++ rest, ⟨position.line, position.offset + 2⟩⟩
    lexer.Gives ⟨.numConst, .int 0, position⟩ point ∧ FailsAt { lexer with point := point } d point
  real : (digits.head? = some '0' → digits = ['0']) → ∀ fraction after,
    rest = '.' :: (fraction ++ after) → IsDigitRun fraction after →
    let kept := significantDigits fraction
    let left := fraction.drop kept.length
    let point : Point := ⟨left ++ after, position.after ('#' :: digits ++ '.' :: kept)⟩
    lexer.Gives ⟨.realConst, .real (Binary64.ofDecimal digits kept), position⟩ point ∧
      (left ≠ [] → FailsAt { lexer with point := point } '0' point)
  integer : (digits.head? = some '0' → digits = ['0']) → ¬ StartsFraction rest →
    Lexeme.first? Rule.all ('#' :: (digits ++ rest)) = some ⟨.integer, '#' :: digits, rest⟩ ∧
      (ofDigits digits ≤ Nat.pow 2 63 - 1 →
        lexer.Gives ⟨.numConst, .int (ofDigits digits), position⟩
          ⟨rest, position.after ('#' :: digits)⟩) ∧
      (Nat.pow 2 63 - 1 < ofDigits digits →
        lexer.FailsAt '#' ⟨'#' :: (digits ++ rest), position⟩)

namespace ComesTo

variable {lexer : Lexer} {digits rest : List Char} {position : Position}

/-- A lexer that stands at a digit fails there. -/
theorem failsAt_digit {text : List Char} (h : lexer.ComesTo text position) {d : Char}
    (hd : d.isDigit = true) (tail : List Char) (there : Position) :
    FailsAt { lexer with point := ⟨d :: tail, there⟩ } d ⟨d :: tail, there⟩ :=
  (h.behind ⟨d :: tail, there⟩).failsAt (.of_isDigit_or_le (Or.inl hd) tail)

/-- An integer that is not too large is given. -/
theorem gives_integer (h : lexer.ComesTo ('#' :: (digits ++ rest)) position)
    (hfirst : Lexeme.first? Rule.all ('#' :: (digits ++ rest)) =
      some ⟨.integer, '#' :: digits, rest⟩) (hmax : ofDigits digits ≤ Nat.pow 2 63 - 1) :
    lexer.Gives ⟨.numConst, .int (ofDigits digits), position⟩
      ⟨rest, position.after ('#' :: digits)⟩ := by
  refine h.gives hfirst ?_
  show Rule.readInteger digits = _
  rw [Rule.readInteger]
  exact if_pos hmax

/-- A real is given with the double nearest to it. -/
theorem gives_real {text : List Char} (h : lexer.ComesTo text position) {whole fraction : List Char}
    (hcut : Rule.cut? .real text = some ('#' :: whole ++ '.' :: fraction, rest))
    (hwhole : IsWhole whole) (hfraction : IsFraction fraction) :
    lexer.Gives ⟨.realConst, .real (Binary64.ofDecimal whole fraction), position⟩
      ⟨rest, position.after ('#' :: whole ++ '.' :: fraction)⟩ :=
  h.gives (Lexeme.first?_real hcut) (Rule.read_real hwhole hfraction)

/-- A lexer that comes to a run of digits behind a sharp sign takes them. -/
theorem takesDigits (h : lexer.ComesTo ('#' :: (digits ++ rest)) position)
    (hrun : IsDigitRun digits rest) : lexer.TakesDigits digits rest position where
  leadingZero := by
    rintro d others rfl
    have hd : d.isDigit = true := hrun.isDigit d (by simp)
    have hzero : lexer.ComesTo ('#' :: (['0'] ++ (d :: others ++ rest))) position := h
    have hpoint : ¬ StartsFraction (d :: others ++ rest) := by
      rintro ⟨e, tail, heq, -⟩
      rw [(List.cons.inj heq).1] at hd
      cases hd
    have hfirst : Lexeme.first? Rule.all ('#' :: (['0'] ++ (d :: others ++ rest))) = _ :=
      Lexeme.first?_integer rfl hpoint
    exact ⟨hzero.gives_integer hfirst (by decide), h.failsAt_digit hd _ _⟩
  real := by
    rintro hzero fraction after rfl hfraction
    have hcut := Rule.cut?_real (hrun.whole?_append hzero) hfraction
    refine ⟨h.gives_real hcut ⟨hrun.ne_nil, hrun.isDigit, hzero⟩ hfraction.isFraction, ?_⟩
    intro hleft
    have hhead := hfraction.head?_drop_significantDigits
    obtain ⟨d, tail, hcons⟩ := List.exists_cons_of_ne_nil hleft
    rw [hcons] at hhead ⊢
    have hdigit : '0'.isDigit = true := by decide
    rw [hhead d rfl]
    exact h.failsAt_digit hdigit _ _
  integer := by
    intro hzero hpoint
    have hfirst := Lexeme.first?_integer (hrun.whole?_append hzero) hpoint
    refine ⟨hfirst, h.gives_integer hfirst, fun hlarge => h.failsAt ?_⟩
    exact .of_refused hfirst (Rule.read_integer_eq_refused_iff.2 hlarge)

end ComesTo

end Lexer

/-! ## What follows tokens -/

/-- In a scan that is finished no lexeme with a content is followed by a digit, which starts
none. -/
theorem Scan.isDigit_eq_false_of_finish {point last : Point} {found : List Finding}
    (h : all Rule.all point = (found, .finish last)) :
    ∀ finding ∈ found, ∀ d ∈ finding.next.rest.head?, d.isDigit = false := by
  induction point using Scan.all.induct Rule.all generalizing found with
  | case1 point first hnext findings ending hall ih =>
    rw [all_eq, hnext] at h
    simp only [Prod.mk.injEq] at h
    obtain ⟨rfl, hfinish⟩ := h
    intro finding hfinding
    rcases List.mem_cons.1 hfinding with rfl | hfinding
    · intro d hd
      rw [← Bool.not_eq_true]
      intro hdigit
      obtain ⟨tail, hrest⟩ := List.head?_eq_some_iff.1 hd
      have hillegal : IsIllegal finding.next.rest := by
        rw [hrest]
        exact .of_isDigit_or_le (Or.inl hdigit) tail
      obtain ⟨cause, hfailure⟩ := exists_failure_of_isIllegal hrest hillegal
      rw [all_eq, hfailure] at hfinish
      cases hfinish
    · exact ih (Prod.ext rfl hfinish) finding hfinding
  | case2 point ending hnext =>
    rw [all_eq, hnext] at h
    cases h
    simp

namespace Lexer

/-- **Runs of digits are not split silently.** A lexer that comes to a run of digits behind a sharp
sign takes it as a whole, or it fails at the first digit that it has not taken. So in a source that
has tokens none of them is directly followed by a digit. -/
theorem takesDigits_of_comesTo (table : SymbolTable σ η) (state : σ) :
    (∀ (lexer : Lexer) (digits rest : List Char) (position : Position),
      lexer.ComesTo ('#' :: (digits ++ rest)) position → IsDigitRun digits rest →
        lexer.TakesDigits digits rest position) ∧
    ∀ (source : String) (tokens : List Token),
      ((tokenize table source).run state).1 = .ok tokens →
        List.Forall₂ (fun token stop => ∃ lexeme, Token.IsReadFrom source.toList token stop lexeme ∧
          ∀ d ∈ lexeme.rest.head?, d.isDigit = false) tokens (tokenEnds source) := by
  refine ⟨fun lexer digits rest position h hrun => h.takesDigits hrun, ?_⟩
  intro source tokens h
  obtain ⟨htokens, last, hfinish⟩ := exists_finish_of_tokenize table state h
  rw [← htokens]
  apply forall₂_tokenEnds
  intro finding hfinding token hmakes
  obtain ⟨lexeme, hlexeme, hrest⟩ := Finding.exists_isReadFrom hfinding hmakes
  refine ⟨lexeme, hlexeme, ?_⟩
  rw [← hrest]
  exact Scan.isDigit_eq_false_of_finish (Prod.ext rfl hfinish) finding hfinding

/-- Two zeros are left of a real, and points follow an integer. -/
theorem takesDigits_of_trailing_zeros :
    (start "#1.500").Gives
        ⟨.realConst, .real (Binary64.ofDecimal ['1'] ['5']), ⟨1, 0⟩⟩ ⟨['0', '0'], ⟨1, 4⟩⟩ ∧
      FailsAt { start "#1.500" with point := ⟨['0', '0'], ⟨1, 4⟩⟩ } '0' ⟨['0', '0'], ⟨1, 4⟩⟩ ∧
      ((tokenize VariableTable.symbols "#1..#2.5").run .empty).1 = .ok
        [⟨.numConst, .int 1, ⟨1, 0⟩⟩, ⟨.operator .dotDot, .absent, ⟨1, 2⟩⟩,
          ⟨.realConst, .real ⟨0x4004000000000000⟩, ⟨1, 4⟩⟩] ∧
      List.Forall₂ (fun token stop => ∃ lexeme,
          Token.IsReadFrom "#1..#2.5".toList token stop lexeme ∧
            ∀ d ∈ lexeme.rest.head?, d.isDigit = false)
        [⟨.numConst, .int 1, ⟨1, 0⟩⟩, ⟨.operator .dotDot, .absent, ⟨1, 2⟩⟩,
          ⟨.realConst, .real ⟨0x4004000000000000⟩, ⟨1, 4⟩⟩] (tokenEnds "#1..#2.5") := by
  obtain ⟨htakes, hfollowed⟩ := takesDigits_of_comesTo VariableTable.symbols .empty
  have hcomes : (start "#1.500").ComesTo ('#' :: (['1'] ++ ['.', '5', '0', '0'])) ⟨1, 0⟩ :=
    comesTo_start "#1.500"
  have hrun : IsDigitRun ['1'] ['.', '5', '0', '0'] := ⟨by simp, by simp, by simp⟩
  have hfraction : IsDigitRun ['5', '0', '0'] [] := ⟨by simp, by simp, by simp⟩
  obtain ⟨hgives, hfails⟩ :=
    (htakes _ _ _ _ hcomes hrun).real (by decide) ['5', '0', '0'] [] rfl hfraction
  have htokens : ((tokenize VariableTable.symbols "#1..#2.5").run .empty).1 = .ok
      [⟨.numConst, .int 1, ⟨1, 0⟩⟩, ⟨.operator .dotDot, .absent, ⟨1, 2⟩⟩,
        ⟨.realConst, .real ⟨0x4004000000000000⟩, ⟨1, 4⟩⟩] := by
    decide +kernel
  exact ⟨hgives, hfails (by decide), htokens, hfollowed _ _ htokens⟩

end Lexer

end MiniPascal
