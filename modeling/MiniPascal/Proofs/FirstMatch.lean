import MiniPascal.Proofs.Pattern
import MiniPascal.Proofs.Scan

/-!
# First matches and longest matches

The first rule that matches is taken, and of its matches the one that its pattern prefers; nothing
asks for a longest match. Main statement: what is taken is nevertheless the longest beginning that
any rule matches, unless a letter follows a boolean, which is then cut short of a longer name
(`Lexeme.isLongest_of_cuts_ne_nil`).
-/

namespace MiniPascal

open Text

/-- A text starts with a boolean that a letter follows. -/
def IsCutShort (text boolean : List Char) : Prop :=
  (boolean = ['t', 'r', 'u', 'e'] ∨ boolean = ['f', 'a', 'l', 's', 'e']) ∧
    ∃ c rest, c.isAlpha = true ∧ boolean ++ c :: rest = text

/-! ## Preferred matches of one rule -/

/-- What the pattern of a rule prefers to match is also the longest beginning that it matches. -/
theorem Rule.isLongest_of_head?_cuts {rule : Rule} {text taken rest : List Char}
    (h : (rule.pattern.cuts text).head? = some (taken, rest)) :
    IsLongest rule.pattern.Matches text taken := by
  rw [head?_cuts_pattern] at h
  have hlongest := (cutsLongest rule).isLongest h
  refine ⟨matches_pattern_iff.2 hlongest.mem, hlongest.isPrefix, ?_⟩
  intro other hother hbegin
  exact hlongest.length_le (matches_pattern_iff.1 hother) hbegin

/-! ## Lexemes of overlapping rules -/

/-- An integer is no longer than a real at the start of the same text: its digits end before the
point. -/
theorem Rule.length_le_of_real {text word other : List Char} (hword : Spells .real word)
    (hother : Spells .integer other) (hwordText : word <+: text) (hotherText : other <+: text) :
    other.length ≤ word.length := by
  obtain ⟨whole, fraction, rfl, hwhole, -⟩ := hword
  obtain ⟨digits, rfl, hdigits⟩ := hother
  obtain ⟨rest, rfl⟩ := hwordText
  rw [List.cons_append, List.cons_append, List.append_assoc, List.cons_append] at hotherText
  have hbegin := prefix_takeWhile hdigits.isDigit (List.cons_prefix_cons.1 hotherText).2
  have hpoint : ∀ c ∈ ('.' :: (fraction ++ rest)).head?, c.isDigit = false := by simp
  rw [takeWhile_append_of_head? hwhole.isDigit hpoint] at hbegin
  have hle := hbegin.length_le
  simp only [List.cons_append, List.length_cons, List.length_append]
  omega

/-- Booleans apart, a lexeme is no shorter than one of a rule that its own rule overrides. -/
theorem Rule.length_le_of_overrides {first second : Rule} {text word other : List Char}
    (hover : first.overrides second = true) (hboolean : first ≠ .boolean)
    (hword : first.Spells word) (hother : second.Spells other) (hwordText : word <+: text)
    (hotherText : other <+: text) : other.length ≤ word.length := by
  unfold overrides at hover
  split at hover
  · obtain ⟨body, rfl, -⟩ := hword
    obtain rfl : other = ['/'] := hother
    simp
  · exact length_le_of_real hword hother hwordText hotherText
  · exact absurd rfl hboolean
  · rw [show word = ['<', '='] from hword, show other = ['<'] from hother]
    decide
  · rw [show word = ['<', '>'] from hword, show other = ['<'] from hother]
    decide
  · rw [show word = ['>', '='] from hword, show other = ['>'] from hother]
    decide
  · rw [show word = [':', '='] from hword, show other = [':'] from hother]
    decide
  · cases hover

/-! ## Booleans -/

namespace IsCutShort

variable {text boolean : List Char}

/-- A boolean is taken also where a letter follows it. -/
theorem exists_first? (h : IsCutShort text boolean) :
    ∃ rest, Lexeme.first? Rule.all text = some ⟨.boolean, boolean, rest⟩ := by
  obtain ⟨hboolean, c, rest, -, rfl⟩ := h
  refine ⟨c :: rest, Lexeme.first?_of_cut? Rule.isOrder_all ?_ (by decide)⟩
  rcases hboolean with rfl | rfl <;> rfl

/-- A boolean that a letter follows begins a longer name. -/
theorem exists_longer (h : IsCutShort text boolean) :
    ∃ name, (Rule.pattern .identifier).Matches name ∧ name <+: text ∧
      boolean.length < name.length := by
  obtain ⟨hboolean, c, rest, hc, rfl⟩ := h
  refine ⟨boolean ++ [c], ?_, ?_, ?_⟩
  · rw [Rule.matches_pattern_iff]
    refine ⟨by simp, ?_⟩
    rw [List.forall_mem_append, List.forall_mem_singleton]
    exact ⟨Rule.isAlpha_of_spells_boolean hboolean, hc⟩
  · exact ⟨rest, by simp⟩
  · simp

end IsCutShort

namespace Lexeme

variable {text : List Char} {lexeme : Lexeme}

/-- A letter follows a boolean lexeme that is shorter than some name. -/
theorem isCutShort_of_lt (h : first? Rule.all text = some lexeme)
    (hboolean : lexeme.rule = .boolean) {name : List Char} (hname : Rule.Spells .identifier name)
    (hbegin : name <+: text) (hlt : lexeme.text.length < name.length) :
    IsCutShort text lexeme.text := by
  have hspells := spells_of_first? h
  have happend := append_of_first? h
  rw [hboolean] at hspells
  refine ⟨hspells, ?_⟩
  rw [← happend] at hbegin
  rcases prefix_or_exists_of_prefix_append hbegin with hshort | ⟨c, tail, hc, rfl⟩
  · exact absurd hshort.length_le (Nat.not_le_of_lt hlt)
  · obtain ⟨others, hrest⟩ := List.head?_eq_some_iff.1 hc
    refine ⟨c, others, hname.2 c (by simp), ?_⟩
    rw [← hrest, happend]

/-- The first lexeme is at least as long as any other one, unless it is a boolean that is cut
short. -/
theorem length_le_of_first? (h : first? Rule.all text = some lexeme)
    (hshort : ¬ IsCutShort text lexeme.text) {rule : Rule} {word : List Char}
    (hword : rule.Spells word) (hbegin : word <+: text) : word.length ≤ lexeme.text.length := by
  rcases eq_or_overrides_of_first? Rule.isOrder_all h hword hbegin with ⟨-, hle⟩ | hover
  · exact hle
  · by_cases hboolean : lexeme.rule = .boolean
    · rw [hboolean] at hover
      obtain rfl : rule = .identifier := by
        cases rule <;> first | rfl | cases hover
      by_contra hlt
      exact hshort (isCutShort_of_lt h hboolean hword hbegin (Nat.lt_of_not_le hlt))
    · exact Rule.length_le_of_overrides hover hboolean (spells_of_first? h) hword
        ⟨lexeme.rest, append_of_first? h⟩ hbegin

/-- Where a pattern has a match, there is a first lexeme. -/
theorem exists_first?_of_cuts_ne_nil {rule : Rule} (h : rule.pattern.cuts text ≠ []) :
    ∃ lexeme, first? Rule.all text = some lexeme := by
  rw [← Option.ne_none_iff_exists']
  intro hnone
  obtain ⟨⟨word, rest⟩, hmem⟩ := List.exists_mem_of_ne_nil _ h
  obtain ⟨hword, happend⟩ := Pattern.mem_cuts_iff.1 hmem
  exact (first?_eq_none_iff Rule.mem_all).1 hnone rule word ⟨rest, happend⟩
    (Rule.matches_pattern_iff.1 hword)

/-- **First matches are longest matches, unless a letter follows a boolean.** Where some rule
matches, every pattern prefers its own longest match. The first rule that matches takes the longest
beginning that any rule matches, except for a boolean that a letter follows: this boolean is taken,
although there is a longer name. -/
theorem isLongest_of_cuts_ne_nil {rule : Rule} (h : rule.pattern.cuts text ≠ []) :
    (∀ (rule : Rule) (taken rest : List Char),
      (rule.pattern.cuts text).head? = some (taken, rest) →
        IsLongest rule.pattern.Matches text taken) ∧
      ∃ lexeme, first? Rule.all text = some lexeme ∧
        (lexeme.rule.pattern.cuts text).head? = some (lexeme.text, lexeme.rest) ∧
        (IsLongest (fun word => ∃ rule : Rule, rule.pattern.Matches word) text lexeme.text ↔
          ¬ ∃ boolean, IsCutShort text boolean) ∧
        ∀ boolean, IsCutShort text boolean →
          lexeme.rule = .boolean ∧ lexeme.text = boolean ∧
            ∃ name, (Rule.pattern .identifier).Matches name ∧ name <+: text ∧
              boolean.length < name.length := by
  refine ⟨fun rule taken rest hcut => Rule.isLongest_of_head?_cuts hcut, ?_⟩
  obtain ⟨lexeme, hfirst⟩ := exists_first?_of_cuts_ne_nil h
  have hshort : ∀ boolean, IsCutShort text boolean →
      lexeme.rule = .boolean ∧ lexeme.text = boolean := by
    intro boolean hboolean
    obtain ⟨rest, hsame⟩ := hboolean.exists_first?
    rw [hfirst, Option.some.injEq] at hsame
    rw [hsame]
    exact ⟨rfl, rfl⟩
  refine ⟨lexeme, hfirst, ?_, ⟨?_, ?_⟩, ?_⟩
  · rw [Rule.head?_cuts_pattern]
    exact cut?_of_first? hfirst
  · rintro hlongest ⟨boolean, hboolean⟩
    obtain ⟨name, hname, hbegin, hlt⟩ := hboolean.exists_longer
    have hle := hlongest.length_le ⟨_, hname⟩ hbegin
    rw [(hshort boolean hboolean).2] at hle
    exact absurd hle (Nat.not_le_of_lt hlt)
  · intro hnone
    refine ⟨⟨lexeme.rule, Rule.matches_pattern_iff.2 (spells_of_first? hfirst)⟩,
      ⟨lexeme.rest, append_of_first? hfirst⟩, ?_⟩
    rintro other ⟨rule, hother⟩ hbegin
    exact length_le_of_first? hfirst (fun hshort => hnone ⟨_, hshort⟩)
      (Rule.matches_pattern_iff.1 hother) hbegin
  · intro boolean hboolean
    obtain ⟨hrule, htext⟩ := hshort boolean hboolean
    exact ⟨hrule, htext, hboolean.exists_longer⟩

/-- Of a name that begins like a boolean only the boolean is taken. -/
theorem first?_falsehood :
    (Rule.pattern .identifier).cuts "falsehood".toList ≠ [] ∧
      ∃ lexeme, first? Rule.all "falsehood".toList = some lexeme ∧
        lexeme.rule = .boolean ∧ lexeme.text = "false".toList ∧
        ¬ IsLongest (fun word => ∃ rule : Rule, rule.pattern.Matches word) "falsehood".toList
          lexeme.text := by
  have hcuts : (Rule.pattern .identifier).cuts "falsehood".toList ≠ [] := by decide
  have hboolean : IsCutShort "falsehood".toList "false".toList :=
    ⟨Or.inr rfl, 'h', "ood".toList, by decide, rfl⟩
  obtain ⟨-, lexeme, hfirst, -, hlongest, hshort⟩ := isLongest_of_cuts_ne_nil hcuts
  obtain ⟨hrule, htext, -⟩ := hshort _ hboolean
  exact ⟨hcuts, lexeme, hfirst, hrule, htext, fun h => hlongest.1 h ⟨_, hboolean⟩⟩

end Lexeme

end MiniPascal
