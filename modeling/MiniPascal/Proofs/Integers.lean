import MiniPascal.Proofs.DigitRuns
import Mathlib.Tactic.Ring

/-!
# Integers written and read

Digits without leading zeros are those of the number that they denote, so that an integer token and
its lexeme tell the same. Main statement: a sharp sign and the digits of a number are read as this
number if it has a place in 63 bits and are refused otherwise, and every integer token stands for
such a text (`Lexer.integer_readsBack`).
-/

namespace MiniPascal

open Text Numeral

variable {σ η : Type}

/-! ## Digits without leading zeros -/

namespace Text

/-- A digit is the only one of its number, which is less than ten. -/
theorem digits_ofDigits_singleton {d : Char} (hd : d.isDigit = true) :
    ofDigits [d] < 10 ∧ digits (ofDigits [d]) = [d] := by
  obtain ⟨hle, hge⟩ : 48 ≤ d.toNat ∧ d.toNat ≤ 57 := by
    rw [Char.isDigit, Bool.and_eq_true, decide_eq_true_eq, decide_eq_true_eq] at hd
    exact ⟨UInt32.le_iff_toNat_le.1 hd.1, UInt32.le_iff_toNat_le.1 hd.2⟩
  have hvalue : ofDigits [d] = d.toNat - 48 := by
    simp [ofDigits, Nat.ofDigitChars]
  have hlt : d.toNat - 48 < 10 := by omega
  have hsame : (Nat.digitChar (d.toNat - 48)).toNat = d.toNat := by
    rw [Nat.toNat_digitChar_of_lt_ten hlt]
    omega
  rw [hvalue, digits, Nat.toDigits_of_lt_base hlt, Char.toNat_inj.1 hsame]
  exact ⟨hlt, rfl⟩

/-- Behind the digits of a positive number further ones can be written. -/
theorem digits_append {n : Nat} (hn : 0 < n) {back : List Char}
    (hback : ∀ d ∈ back, d.isDigit = true) :
    digits n ++ back = digits (n * Nat.pow 10 back.length + ofDigits back) := by
  induction back generalizing n with
  | nil =>
    rw [List.append_nil]
    exact congrArg digits (Nat.mul_one n).symm
  | cons d back ih =>
    obtain ⟨hlt, hdigit⟩ := digits_ofDigits_singleton (hback d List.mem_cons_self)
    have hone : digits n ++ digits (ofDigits [d]) = digits (10 * n + ofDigits [d]) :=
      Nat.toDigits_append_toDigits (by decide) hn hlt
    rw [hdigit] at hone
    have hcons : ofDigits (d :: back) = ofDigits [d] * Nat.pow 10 back.length + ofDigits back :=
      ofDigits_append [d] back
    have hpow : Nat.pow 10 (d :: back).length = 10 * Nat.pow 10 back.length := Nat.pow_succ'
    have hvalue : (10 * n + ofDigits [d]) * Nat.pow 10 back.length + ofDigits back =
        n * Nat.pow 10 (d :: back).length + ofDigits (d :: back) := by
      rw [hcons, hpow]
      ring
    calc digits n ++ d :: back = digits n ++ [d] ++ back := by
          rw [List.append_assoc, List.singleton_append]
      _ = digits ((10 * n + ofDigits [d]) * Nat.pow 10 back.length + ofDigits back) := by
          rw [hone, ih (by omega) fun e he => hback e (List.mem_cons_of_mem d he)]
      _ = digits (n * Nat.pow 10 (d :: back).length + ofDigits (d :: back)) := by rw [hvalue]

/-- The digits of a positive number do not start with a zero. -/
theorem head?_digits_ne {n : Nat} (hn : 0 < n) : (digits n).head? ≠ some '0' := by
  induction n using Nat.strong_induction_on with
  | _ n ih =>
    by_cases hlt : n < 10
    · rw [digits, Nat.toDigits_of_lt_base hlt]
      simp only [List.head?_cons, ne_eq, Option.some.injEq, Nat.digitChar_eq_zero]
      omega
    · have hquotient : 0 < n / 10 := by omega
      have hdigits : digits (n / 10) ++ digits (n % 10) = digits (10 * (n / 10) + n % 10) :=
        Nat.toDigits_append_toDigits (by decide) hquotient (Nat.mod_lt n (by decide))
      rw [Nat.div_add_mod] at hdigits
      rw [← hdigits, List.head?_append_of_ne_nil _ (digits_ne_nil _)]
      exact ih (n / 10) (by omega) hquotient

end Text

namespace Numeral

/-- A written number is a whole part. -/
theorem isWhole_digits (n : Nat) : IsWhole (digits n) := by
  refine ⟨digits_ne_nil n, fun d hd => isDigit_of_mem_digits hd, fun hzero => ?_⟩
  by_cases hn : n = 0
  · rw [hn]
    rfl
  · exact absurd hzero (head?_digits_ne (Nat.pos_of_ne_zero hn))

/-- **A whole part is written with the digits of its number.** -/
theorem IsWhole.digits_ofDigits {text : List Char} (h : IsWhole text) :
    digits (ofDigits text) = text := by
  obtain ⟨d, others, rfl⟩ := List.exists_cons_of_ne_nil h.ne_nil
  obtain ⟨-, hdigit⟩ := digits_ofDigits_singleton (h.isDigit d List.mem_cons_self)
  by_cases hzero : d = '0'
  · have hsingle := h.eq_zero (by rw [hzero, List.head?_cons])
    rw [hsingle]
    rfl
  · have hpos : 0 < ofDigits [d] := by
      rw [Nat.pos_iff_ne_zero]
      intro hvalue
      rw [hvalue] at hdigit
      exact hzero (List.cons.inj hdigit).1.symm
    have hothers : ∀ e ∈ others, e.isDigit = true := fun e he =>
      h.isDigit e (List.mem_cons_of_mem d he)
    calc digits (ofDigits (d :: others))
        = digits (ofDigits [d] * Nat.pow 10 others.length + ofDigits others) := by
          rw [← ofDigits_append, List.singleton_append]
      _ = d :: others := by rw [← digits_append hpos hothers, hdigit, List.singleton_append]

end Numeral

/-! ## Integer tokens -/

/-- The text of an integer value that is a natural number holds its digits. -/
theorem TokenValue.toList_text_int (n : Nat) : (TokenValue.int n).text.toList = digits n := by
  have hnonneg : ¬ (n : Int) < 0 := by omega
  rw [text, integerText, if_neg hnonneg, String.toList_ofList, Int.natAbs_natCast]

/-- What denotes an integer is a sharp sign with the digits of a number that has a place in 63
bits. -/
theorem Denotes.exists_of_numConst {table : VariableTable} {lexeme : List Char} {value : TokenValue}
    (h : Denotes table lexeme .numConst value) :
    ∃ n : Nat, n ≤ Nat.pow 2 63 - 1 ∧ value = .int n ∧ lexeme = '#' :: digits n := by
  cases h with
  | @integer digits hdigits hmax =>
    rw [show maxInteger = Nat.pow 2 63 - 1 from rfl] at hmax
    exact ⟨ofDigits digits, hmax, rfl, by rw [hdigits.digits_ofDigits]⟩

namespace Lexer

/-- A text of a sharp sign and the digits of a number, in front of a text that belongs to no
numeral, is the integer lexeme of this number. -/
theorem first?_digits (n : Nat) {following : List Char}
    (hdigit : ∀ d ∈ following.head?, d.isDigit = false) (hpoint : ¬ StartsFraction following) :
    Lexeme.first? Rule.all ('#' :: (digits n ++ following)) =
      some ⟨.integer, '#' :: digits n, following⟩ :=
  Lexeme.first?_integer
    ((isDigitRun_digits n hdigit).whole?_append (isWhole_digits n).eq_zero) hpoint

/-- The digits of a number that has a place in 63 bits are read as it. -/
theorem read_digits {n : Nat} (hmax : n ≤ Nat.pow 2 63 - 1) :
    Rule.read .integer ('#' :: digits n) = .content (.literal .numConst (.int n)) := by
  show Rule.readInteger (digits n) = _
  rw [Rule.readInteger, ofDigits_digits]
  exact if_pos hmax

/-- So is a source that holds nothing else. -/
theorem tokenize_digits (table : SymbolTable σ η) (state : σ) {n : Nat}
    (hmax : n ≤ Nat.pow 2 63 - 1) :
    ((tokenize table (String.ofList ('#' :: digits n))).run state).1 =
      .ok [⟨.numConst, .int n, Position.start⟩] := by
  have hnone : ¬ StartsFraction [] := by
    rintro ⟨d, tail, heq, -⟩
    cases heq
  have hfirst : Lexeme.first? Rule.all ('#' :: (digits n ++ [])) = _ :=
    first?_digits n (by simp) hnone
  have hsource : (String.ofList ('#' :: digits n)).toList = '#' :: (digits n ++ []) := by
    rw [String.toList_ofList, List.append_nil]
  rw [← hsource] at hfirst
  exact tokenize_eq_singleton table state hfirst rfl (read_digits hmax)

/-- **Integers are read as they are written.** A sharp sign and the digits of a number, in front of
a text that starts with no digit and with no point and a digit, are the token of this number if it
has a place in 63 bits, and an error at the sharp sign otherwise. Each integer token of a run stands
for such a text, and its value, written behind a sharp sign, is read as the same kind and value. -/
theorem integer_readsBack (table : SymbolTable σ η) (state : σ) :
    (∀ (n : Nat) (following : List Char), (∀ d ∈ following.head?, d.isDigit = false) →
      ¬ StartsFraction following →
      let source := String.ofList ('#' :: (digits n ++ following))
      (n ≤ Nat.pow 2 63 - 1 →
        (start source).Gives ⟨.numConst, .int n, Position.start⟩
            ⟨following, Position.start.after ('#' :: digits n)⟩ ∧
          ((items table source).run state).1.head? =
            some (.ok ⟨.numConst, .int n, Position.start⟩)) ∧
      (Nat.pow 2 63 - 1 < n →
        (start source).FailsAt '#' (Point.start source.toList) ∧
          ((items table source).run state).1 =
            [.error (.illegalCharacter '#' Position.start)])) ∧
    ∀ source : String, List.Forall₂
      (fun token stop => token.kind = .numConst → ∃ n : Nat, n ≤ Nat.pow 2 63 - 1 ∧
        token.value = .int n ∧
        slice? source.toList token.position.offset stop = some ('#' :: digits n) ∧
        ((tokenize table (String.ofList ('#' :: token.value.text.toList))).run state).1 =
          .ok [⟨.numConst, token.value, Position.start⟩])
      (((items table source).run state).1.filterMap Item.token?) (tokenEnds source) := by
  refine ⟨?_, ?_⟩
  · intro n following hdigit hpoint source
    have hsource : source.toList = '#' :: (digits n ++ following) := String.toList_ofList
    have hcomes := comesTo_start source
    have hfirst := first?_digits n hdigit hpoint
    rw [hsource] at hcomes
    refine ⟨fun hmax => ?_, fun hlarge => ?_⟩
    · have hread := read_digits hmax
      refine ⟨hcomes.gives hfirst hread, ?_⟩
      rw [← hsource] at hfirst
      obtain ⟨others, hitems, -⟩ := exists_items_eq_cons table state hfirst hread
      rw [hitems, List.head?_cons]
    · have hillegal : IsIllegal ('#' :: (digits n ++ following)) := by
        refine .of_refused hfirst (Rule.read_integer_eq_refused_iff.2 ?_)
        rw [ofDigits_digits]
        exact hlarge
      rw [hsource]
      exact ⟨hcomes.failsAt hillegal, items_eq_singleton_of_isIllegal table state hsource hillegal⟩
  · intro source
    refine (forall₂_isReadFrom table state source).imp ?_
    rintro token stop ⟨lexeme, hlexeme⟩ hkind
    have hdenotes := hlexeme.denotes (by rw [hkind]; decide) .empty
    rw [hkind] at hdenotes
    obtain ⟨n, hmax, hvalue, htext⟩ := hdenotes.exists_of_numConst
    refine ⟨n, hmax, hvalue, by rw [hlexeme.slice_eq, htext], ?_⟩
    rw [hvalue, TokenValue.toList_text_int]
    exact tokenize_digits table state hmax

/-- The largest integer and the next number in front of two points, and an integer in front of a
comment. -/
theorem integer_readsBack_of_largest :
    (start "#9223372036854775807..").Gives
        ⟨.numConst, .int 9223372036854775807, ⟨1, 0⟩⟩ ⟨['.', '.'], ⟨1, 20⟩⟩ ∧
      (start "#9223372036854775808..").FailsAt '#' (Point.start "#9223372036854775808..".toList) ∧
      ∃ n : Nat, n ≤ Nat.pow 2 63 - 1 ∧ TokenValue.int 10 = .int n ∧
        slice? "#10//1".toList 0 3 = some ('#' :: digits n) ∧
        ((tokenize VariableTable.symbols
          (String.ofList ('#' :: (TokenValue.int 10).text.toList))).run .empty).1 =
            .ok [⟨.numConst, .int 10, ⟨1, 0⟩⟩] := by
  obtain ⟨hread, hwritten⟩ := integer_readsBack VariableTable.symbols .empty
  have hpoints : ¬ StartsFraction ['.', '.'] := by
    rintro ⟨d, tail, heq, hd⟩
    cases heq
    cases hd
  obtain ⟨hgives, -⟩ := hread 9223372036854775807 ['.', '.'] (by simp) hpoints
  obtain ⟨-, hfails⟩ := hread 9223372036854775808 ['.', '.'] (by simp) hpoints
  have htokens : ((items VariableTable.symbols "#10//1").run .empty).1.filterMap Item.token? =
      [⟨.numConst, .int 10, ⟨1, 0⟩⟩] := by
    decide +kernel
  have hends : tokenEnds "#10//1" = [3] := by decide +kernel
  have hinteger := hwritten "#10//1"
  rw [htokens, hends, List.forall₂_cons] at hinteger
  exact ⟨(hgives (by decide)).1, (hfails (by decide)).1, hinteger.1 rfl⟩

end Lexer

end MiniPascal
