import MiniPascal.Proofs.Language

/-!
# The priority of the rules

Two rules overlap if some text can be cut by either. There are seven overlapping pairs, and in each
one rule has to be tried before the other; the order of all others does not matter. Main
statements: rules that cut the same text are equal or overlap (`Rule.eq_or_overrides`), and in any
order that keeps the seven pairs the first lexeme is the one whose rule is not overridden
(`Lexeme.first?_eq_some_iff`).
-/

namespace MiniPascal

/-! ## How lexemes start -/

/-- The sorts of characters that lexemes start with. -/
inductive Initial where
  | blank
  | newline
  | sharp
  | quote
  | letter
  | mark
  deriving DecidableEq

/-- The sort of a character. -/
def Initial.of (c : Char) : Initial :=
  if Text.isBlank c then .blank
  else if c = '\n' then .newline
  else if c = '#' then .sharp
  else if c = '\\' ∨ c = '\'' then .quote
  else if c.isAlpha then .letter
  else .mark

/-- A letter is of the sort of letters. -/
theorem Initial.of_isAlpha {c : Char} (h : c.isAlpha = true) : of c = .letter := by
  have hne : ∀ d : Char, d.isAlpha = false → c ≠ d := by
    rintro d hd rfl
    rw [h] at hd
    exact absurd hd (by decide)
  have hblank : Text.isBlank c = false := by
    simp [Text.isBlank, hne ' ' (by decide), hne '\t' (by decide)]
  simp [of, hblank, hne '\n' (by decide), hne '#' (by decide), hne '\\' (by decide),
    hne '\'' (by decide), h]

/-- The codes of letters lie above those of digits, and none is beyond ASCII. -/
theorem toNat_of_isAlpha {c : Char} (h : c.isAlpha = true) : 57 < c.toNat ∧ c.toNat < 128 := by
  have hcode : (decide (c.val ≥ 'A'.val ∧ c.val ≤ 'Z'.val) ||
      (decide (c.val ≥ 'a'.val) && decide (c.val ≤ 'z'.val))) = true := h
  have hupper : 'A'.val.toNat = 65 ∧ 'Z'.val.toNat = 90 := ⟨rfl, rfl⟩
  have hlower : 'a'.val.toNat = 97 ∧ 'z'.val.toNat = 122 := ⟨rfl, rfl⟩
  simp only [UInt32.le_iff_toNat_le, ge_iff_le, Bool.or_eq_true, Bool.and_eq_true,
    decide_eq_true_eq] at hcode
  show 57 < c.val.toNat ∧ c.val.toNat < 128
  omega

/-- A digit is of the sort of marks. -/
theorem Initial.of_isDigit {c : Char} (h : c.isDigit = true) : of c = .mark := by
  have hne : ∀ d : Char, d.isDigit = false → c ≠ d := by
    rintro d hd rfl
    rw [h] at hd
    exact absurd hd (by decide)
  have halpha : c.isAlpha = false := by
    have hle : c.toNat ≤ 57 :=
      UInt32.le_iff_toNat_le.1 (of_decide_eq_true (Bool.and_eq_true_iff.1 h).2)
    rw [← Bool.not_eq_true]
    intro hletter
    exact absurd hle (Nat.not_le_of_lt (toNat_of_isAlpha hletter).1)
  have hblank : Text.isBlank c = false := by
    simp [Text.isBlank, hne ' ' (by decide), hne '\t' (by decide)]
  simp [of, hblank, hne '\n' (by decide), hne '#' (by decide), hne '\\' (by decide),
    hne '\'' (by decide), halpha]

/-- What a closed check shows of the characters of all operators holds of those of each one. -/
theorem Operator.forall_mem_spelling {p : Char → Bool}
    (h : (Operator.all.all fun op => op.spelling.all p) = true) (op : Operator) :
    ∀ c ∈ op.spelling, p c = true :=
  List.all_eq_true.1 (List.all_eq_true.1 h op (mem_all op))

namespace Rule

/-- A boolean is written with letters. -/
theorem isAlpha_of_spells_boolean {word : List Char} (h : Spells .boolean word) :
    ∀ c ∈ word, c.isAlpha = true := by
  rcases h with rfl | rfl
  · exact List.all_eq_true.1 rfl
  · exact List.all_eq_true.1 rfl

/-- The sort of character that lexemes of a rule start with. -/
def initial : Rule → Initial
  | .whitespace => .blank
  | .newline => .newline
  | .comment => .mark
  | .real => .sharp
  | .integer => .sharp
  | .char => .quote
  | .boolean => .letter
  | .identifier => .letter
  | .operator _ => .mark

/-- A lexeme is not empty. -/
theorem ne_nil_of_spells {rule : Rule} {word : List Char} (h : rule.Spells word) : word ≠ [] := by
  cases rule with
  | whitespace => exact h.1
  | newline => exact h.1
  | identifier => exact h.1
  | comment => obtain ⟨body, rfl, _⟩ := h; simp
  | real => obtain ⟨whole, fraction, rfl, _⟩ := h; simp
  | integer => obtain ⟨whole, rfl, _⟩ := h; simp
  | char => obtain ⟨c, _, rfl | rfl⟩ := h <;> simp
  | boolean => rcases h with rfl | rfl <;> simp
  | operator op => rw [h]; cases op <;> simp [Operator.spelling]

/-- A lexeme starts with a character of the sort that its rule asks for. -/
theorem initial_eq_of_spells {rule : Rule} {c : Char} {tail : List Char}
    (h : rule.Spells (c :: tail)) : Initial.of c = rule.initial := by
  cases rule with
  | whitespace => simp [Initial.of, initial, h.2 c List.mem_cons_self]
  | newline =>
    have hc : c = '\n' := by simpa using h.2 c List.mem_cons_self
    rw [hc]
    rfl
  | comment =>
    obtain ⟨body, hbody, _⟩ := h
    rw [(List.cons.inj hbody).1]
    rfl
  | real =>
    obtain ⟨whole, fraction, hword, _⟩ := h
    rw [(List.cons.inj hword).1]
    rfl
  | integer =>
    obtain ⟨whole, hword, _⟩ := h
    rw [(List.cons.inj hword).1]
    rfl
  | char =>
    obtain ⟨d, _, hword | hword⟩ := h
    · rw [(List.cons.inj hword).1]
      rfl
    · rw [(List.cons.inj hword).1]
      rfl
  | boolean =>
    rcases h with hword | hword
    · rw [(List.cons.inj hword).1]
      rfl
    · rw [(List.cons.inj hword).1]
      rfl
  | identifier => exact Initial.of_isAlpha (h.2 c List.mem_cons_self)
  | operator op =>
    have hc : c = op.spelling.head (by rw [← h]; simp) := by simp [← show _ = op.spelling from h]
    rw [hc]
    cases op <;> rfl

/-! ## Overlapping rules -/

/-- Whether a rule has to be tried before another one that can cut the same text. -/
def overrides : Rule → Rule → Bool
  | .comment, .operator .slash => true
  | .real, .integer => true
  | .boolean, .identifier => true
  | .operator .lessEquals, .operator .less => true
  | .operator .notEquals, .operator .less => true
  | .operator .greaterEquals, .operator .greater => true
  | .operator .assignment, .operator .colon => true
  | _, _ => false

/-- An operator that starts with another one is it or has to be tried before it. -/
theorem eq_or_overrides_of_prefix {short long : Operator}
    (h : short.spelling <+: long.spelling) :
    short = long ∨ overrides (.operator long) (.operator short) = true := by
  have hall : ∀ short ∈ Operator.all, ∀ long ∈ Operator.all, short.spelling <+: long.spelling →
      short = long ∨ overrides (.operator long) (.operator short) = true := by
    decide +kernel
  exact hall short (Operator.mem_all short) long (Operator.mem_all long) h

/-- Of two overlapping rules, only those of booleans and of identifiers share a lexeme; in front of
other text, the rest may be cut differently. -/
theorem eq_boolean_of_overrides {first second : Rule} {word : List Char}
    (hover : first.overrides second = true) (hfirst : first.Spells word)
    (hsecond : second.Spells word) : first = .boolean ∧ second = .identifier := by
  unfold overrides at hover
  split at hover
  · obtain ⟨body, rfl, _⟩ := hfirst
    cases hsecond
  · -- an integer has no point
    obtain ⟨whole, fraction, rfl, _⟩ := hfirst
    obtain ⟨digits, heq, hdigits⟩ := hsecond
    have hmem : '.' ∈ digits := by
      rw [← (List.cons.inj heq).2]
      simp
    exact absurd (hdigits.isDigit '.' hmem) (by decide)
  · exact ⟨rfl, rfl⟩
  · cases hfirst.symm.trans hsecond
  · cases hfirst.symm.trans hsecond
  · cases hfirst.symm.trans hsecond
  · cases hfirst.symm.trans hsecond
  · cases hover

/-- The slash is the only operator that a comment can be taken for. -/
theorem eq_slash_of_comment {word text : List Char} {op : Operator}
    (hword : Spells .comment word) (hbegin : word <+: text) (hop : op.spelling <+: text) :
    op = .slash := by
  obtain ⟨body, rfl, _⟩ := hword
  obtain ⟨tail, rfl⟩ := hbegin
  cases op <;> simp [Operator.spelling] at hop ⊢

/-- Rules with a lexeme each at the start of one text are equal, or one overrides the other. -/
theorem eq_or_overrides {first second : Rule} {text word other : List Char}
    (hword : first.Spells word) (hother : second.Spells other) (hwordText : word <+: text)
    (hotherText : other <+: text) :
    first = second ∨ first.overrides second = true ∨ second.overrides first = true := by
  -- both start with the same character, which leaves few pairs of rules to compare
  have hinitial : first.initial = second.initial := by
    obtain ⟨c, tail, rfl⟩ := List.exists_cons_of_ne_nil (ne_nil_of_spells hword)
    obtain ⟨d, tail', rfl⟩ := List.exists_cons_of_ne_nil (ne_nil_of_spells hother)
    obtain ⟨rest, rfl⟩ := hwordText
    obtain ⟨rfl, -⟩ := List.cons_prefix_cons.1 hotherText
    rw [← initial_eq_of_spells hword, ← initial_eq_of_spells hother]
  cases first with
  | comment =>
    cases second with
    | comment => exact Or.inl rfl
    | operator op =>
      rw [hother] at hotherText
      obtain rfl := eq_slash_of_comment hword hwordText hotherText
      exact Or.inr (Or.inl rfl)
    | _ => cases hinitial
  | operator op =>
    cases second with
    | comment =>
      rw [hword] at hwordText
      obtain rfl := eq_slash_of_comment hother hotherText hwordText
      exact Or.inr (Or.inr rfl)
    | operator op' =>
      rw [hword] at hwordText
      rw [hother] at hotherText
      rcases List.prefix_or_prefix_of_prefix hwordText hotherText with h | h
      · rcases eq_or_overrides_of_prefix h with rfl | h
        · exact Or.inl rfl
        · exact Or.inr (Or.inr h)
      · rcases eq_or_overrides_of_prefix h with rfl | h
        · exact Or.inl rfl
        · exact Or.inr (Or.inl h)
    | _ => cases hinitial
  | _ => cases second <;> simp_all [initial, overrides]

/-! ## Orders of the rules -/

/-- A list of all rules in which no rule stands behind one that it overrides. -/
structure IsOrder (rules : List Rule) : Prop where
  mem : ∀ rule : Rule, rule ∈ rules
  pairwise : rules.Pairwise fun first second => second.overrides first = false

/-- The order in which the rules are tried keeps the overlapping pairs. -/
theorem isOrder_all : IsOrder all :=
  ⟨mem_all, by decide +kernel⟩

/-- No rule overrides itself. -/
theorem not_overrides_self (rule : Rule) : rule.overrides rule = false := by
  cases rule with
  | operator op => cases op <;> rfl
  | _ => rfl

/-- A rule that overrides another one differs from it. -/
theorem ne_of_overrides {first second : Rule} (h : first.overrides second = true) :
    first ≠ second := by
  rintro rfl
  rw [not_overrides_self] at h
  cases h

end Rule

namespace Lexeme

open Rule

variable {rules : List Rule} {text : List Char}

/-- No rule matches a text exactly where none of its beginnings is a lexeme. -/
theorem first?_eq_none_iff (hmem : ∀ rule : Rule, rule ∈ rules) :
    first? rules text = none ↔
      ∀ (rule : Rule) (word : List Char), word <+: text → ¬ rule.Spells word := by
  rw [first?, List.findSome?_eq_none_iff]
  constructor
  · intro h rule
    have hcut := Option.map_eq_none_iff.1 (h rule (hmem rule))
    exact (cutsLongest rule).eq_none_iff.1 hcut
  · intro h rule _
    rw [Option.map_eq_none_iff, (cutsLongest rule).eq_none_iff]
    exact h rule

/-- A rule that overrides the one of the first lexeme does not match. -/
theorem cut?_eq_none_of_overrides (horder : IsOrder rules) {lexeme : Lexeme}
    (h : first? rules text = some lexeme) {rival : Rule}
    (hrival : rival.overrides lexeme.rule = true) : rival.cut? text = none := by
  obtain ⟨before, rule, after, hrules, hsome, hnone⟩ := List.findSome?_eq_some_iff.1 h
  obtain ⟨_, _, hlexeme⟩ := Option.map_eq_some_iff.1 hsome
  obtain rfl : rule = lexeme.rule := by rw [← hlexeme]
  have hpairwise := horder.pairwise
  have hmem := horder.mem rival
  rw [hrules] at hpairwise hmem
  -- the rival can only stand before the rule, where nothing has matched
  have hbefore : rival ∈ before := by
    rcases List.mem_append.1 hmem with hbefore | hrest
    · exact hbefore
    · have htail := List.pairwise_cons.1 (List.pairwise_append.1 hpairwise).2.1
      rcases List.mem_cons.1 hrest with heq | hafter
      · rw [heq, not_overrides_self] at hrival
        cases hrival
      · rw [htail.1 rival hafter] at hrival
        cases hrival
  exact Option.map_eq_none_iff.1 (hnone rival hbefore)

/-- The first lexeme is the one that a rule cuts off and that no overriding rule competes for. -/
theorem first?_eq_some_iff (horder : IsOrder rules) {lexeme : Lexeme} :
    first? rules text = some lexeme ↔
      lexeme.rule.cut? text = some (lexeme.text, lexeme.rest) ∧
        ∀ rival : Rule, rival.overrides lexeme.rule = true → rival.cut? text = none := by
  constructor
  · intro h
    exact ⟨cut?_of_first? h, fun rival hrival => cut?_eq_none_of_overrides horder h hrival⟩
  · rintro ⟨hcut, hrivals⟩
    have hlongest := (cutsLongest lexeme.rule).isLongest hcut
    cases hfirst : first? rules text with
    | none =>
      have hnone := (first?_eq_none_iff horder.mem).1 hfirst
      exact absurd hlongest.mem (hnone lexeme.rule _ hlongest.isPrefix)
    | some other =>
      have hother := cut?_of_first? hfirst
      have hotherLongest := (cutsLongest other.rule).isLongest hother
      rcases eq_or_overrides hlongest.mem hotherLongest.mem hlongest.isPrefix
        hotherLongest.isPrefix with heq | hover | hover
      · rw [heq, hother, Option.some.injEq, Prod.mk.injEq] at hcut
        rw [Option.some.injEq, Lexeme.mk.injEq]
        exact ⟨heq.symm, hcut⟩
      · rw [cut?_eq_none_of_overrides horder hfirst hover] at hcut
        cases hcut
      · rw [hrivals other.rule hover] at hother
        cases hother

/-- What a rule cuts off that no other rule overrides is the first lexeme. -/
theorem first?_of_cut? (horder : IsOrder rules) {rule : Rule} {word rest : List Char}
    (hcut : rule.cut? text = some (word, rest))
    (hrivals : ∀ rival ∈ all, rival.overrides rule = false) :
    first? rules text = some ⟨rule, word, rest⟩ := by
  rw [first?_eq_some_iff horder]
  refine ⟨hcut, fun rival hrival => ?_⟩
  rw [hrivals rival (mem_all rival)] at hrival
  cases hrival

/-- A lexeme of some rule at the start of a text belongs to the rule of the first lexeme, and then
it is no longer than this one, or to a rule that is overridden. -/
theorem eq_or_overrides_of_first? (horder : IsOrder rules) {lexeme : Lexeme}
    (h : first? rules text = some lexeme) {rule : Rule} {word : List Char}
    (hword : rule.Spells word) (hbegin : word <+: text) :
    rule = lexeme.rule ∧ word.length ≤ lexeme.text.length ∨
      lexeme.rule.overrides rule = true := by
  have hlongest := (cutsLongest lexeme.rule).isLongest (cut?_of_first? h)
  rcases eq_or_overrides hword hlongest.mem hbegin hlongest.isPrefix with rfl | hover | hover
  · exact Or.inl ⟨rfl, hlongest.length_le hword hbegin⟩
  · have hnone := cut?_eq_none_of_overrides horder h hover
    exact absurd hword ((cutsLongest rule).eq_none_iff.1 hnone word hbegin)
  · exact Or.inr hover

end Lexeme

end MiniPascal
