import MiniPascal.Proofs.CorrectRounding
import MiniPascal.Proofs.DoubleText
import MiniPascal.Proofs.Integers

/-!
# Reals written and read

A real lexeme is read as the double nearest to its decimal, and a double that is written
positionally is written with digits that are a real lexeme behind a sharp sign. Main statements:
reals are rounded correctly and in order, so that all tokens of a run agree with themselves
(`Lexer.real_isNearest`), and positional texts are read back (`Lexer.real_readsBack`).
-/

namespace MiniPascal

open Text Numeral

variable {σ η : Type}

/-! ## Values that agree with themselves -/

/-- A double is equal to itself, unless it is a NaN. -/
theorem Binary64.equals_self (x : Binary64) : x.equals x = !x.isNaN := by
  unfold equals
  cases x.isNaN <;> simp

/-- A double that is found in a text is no NaN. -/
theorem Binary64.isNaN_of_ofPointed? {text : List Char} {x : Binary64}
    (h : ofPointed? text = some x) : x.isNaN = false := by
  unfold ofPointed? at h
  split at h
  · obtain ⟨-, hvalue⟩ := Option.ite_none_right_eq_some.1 h
    cases hvalue
    exact (isNaN_nearest _ _).1
  · cases h

/-- A real that is read is no NaN. -/
theorem Rule.isNaN_of_read {rule : Rule} {lexeme : List Char} {kind : TokenKind} {x : Binary64}
    (h : rule.read lexeme = .content (.literal kind (.real x))) : x.isNaN = false := by
  cases rule with
  | real =>
    rw [read, readRealBy] at h
    split at h
    · next hvalue =>
      cases h
      exact Binary64.isNaN_of_ofPointed? hvalue
    · cases h
  | integer =>
    rw [read, readInteger] at h
    split at h <;> cases h
  | identifier =>
    rw [read, readWord] at h
    split at h <;> cases h
  | _ => cases h

/-- Tokens of a run agree with themselves. -/
theorem Token.agrees_self (table : SymbolTable σ η) (state : σ) {source : String} {token : Token}
    (h : .ok token ∈ ((items table source).run state).1) : token.agrees token = true := by
  obtain ⟨finding, hfinding, hshows, -⟩ := exists_makes_of_mem_items table state h
  obtain ⟨stop, lexeme, -, -, hread, -⟩ := Scan.exists_leadsTo_of_mem_all hfinding
  have hvalue : token.value.agrees token.value = true := by
    generalize finding.content = content, token.kind = kind, token.value = value at hread hshows ⊢
    cases hshows with
    | name name entry => exact beq_self_eq_true _
    | literal =>
      cases value with
      | real x =>
        show x.equals x = true
        rw [Binary64.equals_self, Rule.isNaN_of_read hread]
        rfl
      | _ => exact beq_self_eq_true _
  simp [agrees, hvalue]

/-! ## Doubles in positional form -/

namespace Binary64

variable {x : Binary64}

/-- Whether the value of a number without a sign reaches a quotient is settled by whole numbers. -/
theorem div_le_value_iff (hsign : x.isNegative = false) (numerator : Nat) {denominator : Nat}
    (h : 0 < denominator) : (numerator : ℚ) / denominator ≤ x.value ↔
      numerator * Nat.pow 2 1074 ≤ units x.magnitude * denominator := by
  have hpos : (0 : ℚ) < 2 ^ 1074 := by positivity
  rw [value_eq hsign, div_le_div_iff₀ (Nat.cast_pos.2 h) hpos]
  generalize 1074 = least
  exact_mod_cast Iff.rfl

/-- The least positional magnitude is the first one with a value from `0.0001` on. -/
theorem leastPositional_le_iff (hsign : x.isNegative = false) :
    leastPositional ≤ x.magnitude ↔ 1 / 10 ^ 4 ≤ x.value := by
  have hfirst : units (leastPositional - 1) * Nat.pow 10 4 < 1 * Nat.pow 2 1074 ∧
      1 * Nat.pow 2 1074 ≤ units leastPositional * Nat.pow 10 4 := by decide +kernel
  have hpos : 0 < Nat.pow 10 4 := by decide
  have hquotient : (1 / 10 ^ 4 : ℚ) = (1 : Nat) / (Nat.pow 10 4 : Nat) := by norm_num
  rw [hquotient, div_le_value_iff hsign 1 hpos]
  constructor
  · intro hle
    exact Nat.le_trans hfirst.2 (Nat.mul_le_mul_right _ (units_strictMono.monotone hle))
  · intro hunits
    by_contra hlt
    have hbefore : x.magnitude ≤ leastPositional - 1 := by omega
    have hbelow := Nat.mul_le_mul_right (Nat.pow 10 4) (units_strictMono.monotone hbefore)
    exact absurd hunits (Nat.not_le_of_lt (Nat.lt_of_le_of_lt hbelow hfirst.1))

/-- The first magnitude past the positional ones is the first one with a value from `10 ^ 16` on. -/
theorem lt_positionalBound_iff (hsign : x.isNegative = false) :
    x.magnitude < positionalBound ↔ x.value < 10 ^ 16 := by
  have hbound : Nat.pow 10 16 * Nat.pow 2 1074 = units positionalBound * 1 := by decide +kernel
  have hquotient : (10 ^ 16 : ℚ) = (Nat.pow 10 16 : Nat) / (1 : Nat) := by norm_num
  rw [hquotient, ← not_le, ← not_le, div_le_value_iff hsign _ Nat.one_pos, hbound,
    Nat.mul_one, Nat.mul_one, units_strictMono.le_iff_le]

/-- **Zero and the numbers from `0.0001` up to below `10 ^ 16` are written positionally.** -/
theorem isPositional_iff (hsign : x.isNegative = false) :
    isPositional x.magnitude = true ↔
      x.magnitude = 0 ∨ 1 / 10 ^ 4 ≤ x.value ∧ x.value < 10 ^ 16 := by
  rw [← leastPositional_le_iff hsign, ← lt_positionalBound_iff hsign]
  simp [isPositional]

/-- A magnitude that is written positionally is less than infinity. -/
theorem lt_infinityMagnitude_of_isPositional {magnitude : Nat}
    (h : isPositional magnitude = true) : magnitude < infinityMagnitude := by
  have hpos : 0 < infinityMagnitude := by decide
  have hbound : positionalBound ≤ infinityMagnitude := nearestMagnitude_le _ _
  simp [isPositional] at h
  omega

/-- A number that is written positionally is no NaN. -/
theorem isNaN_of_isPositional (h : isPositional x.magnitude = true) : x.isNaN = false :=
  decide_eq_false (Nat.not_lt_of_lt (lt_infinityMagnitude_of_isPositional h))

/-- The text of a number in positional form is that of its shortest decimal. -/
theorem toList_text_of_isPositional (hsign : x.isNegative = false)
    (h : isPositional x.magnitude = true) :
    x.text.toList = (shortest x.magnitude).positional := by
  have hfinite := Nat.not_le_of_lt (lt_infinityMagnitude_of_isPositional h)
  rw [toList_text (isNaN_of_isPositional h), hsign, magnitudeText, if_neg hfinite, if_pos h]
  rfl

/-- A number without a sign is the double nearest to its shortest decimal. -/
theorem ofDecimal_shortest (hsign : x.isNegative = false) (hnan : x.isNaN = false) :
    ofDecimal (shortest x.magnitude).whole (shortest x.magnitude).fraction = x := by
  have hread := readsAs_shortest (magnitude_le_of_isNaN hnan)
  generalize shortest x.magnitude = decimal at hread ⊢
  apply eq_of_magnitude_eq
  · rw [hsign]
    exact (isNaN_nearest _ _).2
  · have hpos : ∀ places : Nat, 0 < Nat.pow 10 places := fun _ => Nat.pow_pos (by decide)
    rw [ofDecimal, nearest, magnitude_ofMagnitude (nearestMagnitude_le _ _),
      nearestMagnitude_congr (hpos _) (hpos decimal.places) decimal.ofDigits_positional]
    exact beq_iff_eq.1 hread

end Binary64

/-- Digits that are filled up with zeros are a run up to the end of a text. -/
theorem isDigitRun_paddedDigits (width n : Nat) : IsDigitRun (paddedDigits width n) [] := by
  refine ⟨List.append_ne_nil_of_right_ne_nil _ (digits_ne_nil n), fun d hd => ?_, by simp⟩
  rcases List.mem_append.1 hd with hzero | hdigit
  · rw [List.eq_of_mem_replicate hzero]
    rfl
  · exact isDigit_of_mem_digits hdigit

/-- The fraction of a decimal is one of a real lexeme. -/
theorem Decimal.isFraction_fraction (d : Decimal) : IsFraction d.fraction := by
  rw [d.fraction_eq]
  exact (isDigitRun_paddedDigits _ _).isFraction

/-- Behind a sharp sign the positional form of a decimal is a real lexeme. -/
theorem Decimal.cut?_real_positional (d : Decimal) :
    Rule.cut? .real ('#' :: d.positional) = some ('#' :: d.whole ++ '.' :: d.fraction, []) :=
  (Rule.cutsLongest .real).cut?_of_mem
    ⟨d.whole, d.fraction, rfl, isWhole_digits _, d.isFraction_fraction⟩

namespace Lexer

/-! ## Reals of a source -/

/-- **Reals are rounded correctly.** Of a real lexeme that a lexer comes to it gives the double
nearest to the decimal, and no other one is nearest. Larger decimals do not give smaller doubles. As
no double is a NaN then, all tokens of a run agree with themselves. -/
theorem real_isNearest (table : SymbolTable σ η) (state : σ) :
    (∀ (lexer : Lexer) (text lexeme rest : List Char) (position : Position),
      lexer.ComesTo text position → Rule.cut? .real text = some (lexeme, rest) →
        ∃ whole fraction, lexeme = '#' :: whole ++ '.' :: fraction ∧
          IsWhole whole ∧ IsFraction fraction ∧
          lexer.Gives ⟨.realConst, .real (Binary64.ofDecimal whole fraction), position⟩
            ⟨rest, position.after lexeme⟩ ∧
          ∀ x : Binary64, x.IsNearest (Binary64.decimalValue whole fraction) ↔
            x = Binary64.ofDecimal whole fraction) ∧
    (∀ whole fraction whole' fraction' : List Char,
      Binary64.decimalValue whole fraction ≤ Binary64.decimalValue whole' fraction' →
        (Binary64.ofDecimal whole fraction).magnitude ≤
          (Binary64.ofDecimal whole' fraction').magnitude) ∧
    ∀ (source : String) (token : Token),
      .ok token ∈ ((items table source).run state).1 → token.agrees token = true := by
  refine ⟨?_, fun _ _ _ _ => Binary64.magnitude_ofDecimal_le,
    fun _ _ => Token.agrees_self table state⟩
  intro lexer text lexeme rest position h hcut
  obtain ⟨whole, fraction, rfl, hwhole, hfraction⟩ := ((Rule.cutsLongest .real).isLongest hcut).mem
  exact ⟨whole, fraction, rfl, hwhole, hfraction, h.gives_real hcut hwhole hfraction,
    fun _ => Binary64.isNearest_decimalValue_iff⟩

/-- A number half way between two doubles is rounded to the even one, a larger decimal not to a
smaller double, and a real agrees with itself. -/
theorem real_isNearest_of_half_way :
    (start "#9007199254740993.0").Gives
        ⟨.realConst, .real ⟨0x4340000000000000⟩, ⟨1, 0⟩⟩ ⟨[], ⟨1, 19⟩⟩ ∧
      (Binary64.mk 0x4340000000000000).IsNearest
        (Binary64.decimalValue "9007199254740993".toList ['0']) ∧
      (Binary64.ofDecimal ['0'] ['1']).magnitude ≤ (Binary64.ofDecimal ['0'] ['1', '2']).magnitude ∧
      Token.agrees ⟨.realConst, .real ⟨0x3FB999999999999A⟩, ⟨1, 0⟩⟩
        ⟨.realConst, .real ⟨0x3FB999999999999A⟩, ⟨1, 0⟩⟩ = true := by
  obtain ⟨hgives, hmono, hagrees⟩ := real_isNearest VariableTable.symbols .empty
  obtain ⟨whole, fraction, hlexeme, hwhole, -, htoken, hnearest⟩ :=
    hgives (start "#9007199254740993.0") _ ('#' :: "9007199254740993.0".toList) [] ⟨1, 0⟩
      (comesTo_start _) (by decide)
  have hpoint : ∀ digits : List Char, IsWhole digits → '.' ∉ digits := fun _ hdigits hmem =>
    absurd (hdigits.isDigit '.' hmem) (by decide)
  have hsplit : whole = "9007199254740993".toList ∧ fraction = ['0'] :=
    eq_of_append_cons_eq (hpoint whole hwhole) (by decide) (List.cons.inj hlexeme).2.symm
  have hvalue : Binary64.ofDecimal "9007199254740993".toList ['0'] = ⟨0x4340000000000000⟩ := by
    decide +kernel
  rw [hsplit.1, hsplit.2, hvalue] at htoken hnearest
  have hless : Binary64.decimalValue ['0'] ['1'] ≤ Binary64.decimalValue ['0'] ['1', '2'] := by
    decide +kernel
  have hitems : ((items VariableTable.symbols "#0.1").run .empty).1 =
      [.ok ⟨.realConst, .real ⟨0x3FB999999999999A⟩, ⟨1, 0⟩⟩] := by
    decide +kernel
  exact ⟨htoken, (hnearest _).2 rfl, hmono _ _ _ _ hless,
    hagrees "#0.1" _ (by rw [hitems]; exact List.mem_cons_self)⟩

/-- **Reals that are written positionally are read back.** The text of zero and of a number from
`0.0001` up to below `10 ^ 16` is one real token behind a sharp sign, with the same number. -/
theorem real_readsBack (table : SymbolTable σ η) (state : σ) {x : Binary64}
    (h : x = ⟨0⟩ ∨ 1 / 10 ^ 4 ≤ x.value ∧ x.value < 10 ^ 16) :
    let source := String.ofList ('#' :: (TokenValue.real x).text.toList)
    ((tokenize table source).run state).1 = .ok [⟨.realConst, .real x, Position.start⟩] ∧
      (start source).Gives ⟨.realConst, .real x, Position.start⟩
        ⟨[], Position.start.after source.toList⟩ := by
  intro source
  have hsign : x.isNegative = false := by
    rcases h with rfl | ⟨hlower, -⟩
    · decide
    · exact Binary64.isNegative_of_value_pos (lt_of_lt_of_le (by norm_num) hlower)
  have hform : Binary64.isPositional x.magnitude = true := by
    rw [Binary64.isPositional_iff hsign]
    refine h.imp_left ?_
    rintro rfl
    rfl
  have htext := Binary64.toList_text_of_isPositional hsign hform
  have hread := Binary64.ofDecimal_shortest hsign (Binary64.isNaN_of_isPositional hform)
  generalize Binary64.shortest x.magnitude = decimal at htext hread
  have hsource : source.toList = '#' :: decimal.positional := by
    rw [← htext]
    exact String.toList_ofList
  have hcut := decimal.cut?_real_positional
  have hwhole : IsWhole decimal.whole := isWhole_digits _
  have hcomes := comesTo_start source
  rw [← hsource] at hcut
  constructor
  · apply tokenize_eq_singleton table state (Lexeme.first?_real hcut) rfl
    rw [← hread]
    exact Rule.read_real hwhole decimal.isFraction_fraction
  · have hgives := hcomes.gives_real hcut hwhole decimal.isFraction_fraction
    rw [hread] at hgives
    rw [hsource]
    exact hgives

/-- The double nearest to `0.1` is read back from this text. -/
theorem real_readsBack_of_tenth :
    1 / 10 ^ 4 ≤ (Binary64.mk 0x3FB999999999999A).value ∧
      (Binary64.mk 0x3FB999999999999A).value < 10 ^ 16 ∧
      ((tokenize VariableTable.symbols "#0.1").run .empty).1 =
        .ok [⟨.realConst, .real ⟨0x3FB999999999999A⟩, ⟨1, 0⟩⟩] ∧
      (start "#0.1").Gives ⟨.realConst, .real ⟨0x3FB999999999999A⟩, ⟨1, 0⟩⟩ ⟨[], ⟨1, 4⟩⟩ := by
  have hfields : (Binary64.mk 0x3FB999999999999A).magnitude =
      0x3FB * Nat.pow 2 52 + 0x999999999999A := by decide
  have hvalue := Binary64.value_eq_of_fields (by decide) (by decide) hfields
  have hrange : 1 / 10 ^ 4 ≤ (Binary64.mk 0x3FB999999999999A).value ∧
      (Binary64.mk 0x3FB999999999999A).value < 10 ^ 16 := by
    rw [hvalue]
    norm_num
  have htext : String.ofList ('#' :: (TokenValue.real ⟨0x3FB999999999999A⟩).text.toList) =
      "#0.1" := by
    decide +kernel
  have hread := real_readsBack VariableTable.symbols .empty (Or.inr hrange)
  rw [htext] at hread
  exact ⟨hrange.1, hrange.2, hread.1, hread.2⟩

end Lexer

end MiniPascal
