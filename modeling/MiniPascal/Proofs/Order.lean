import MiniPascal.Proofs.Items
import Mathlib.Data.List.Basic

/-!
# Other orders of the rules

The rules could be tried in another order. This module tells which orders make no difference to any
source. Of the rules that match a text the one that is listed first takes it, so that only the order
of overlapping pairs counts, and for each of these there is a text that is lexed differently if the
pair is turned round (`Rule.exists_tells`). Main statement: an order of the rules gives every source
its items exactly if it keeps the seven overlapping pairs
(`VariableTable.items_withRules_eq_iff`).
-/

namespace MiniPascal

open Text

/-! ## The first of the rules that match -/

/-- Rules that match the same text are equal, or one overrides the other. -/
theorem Rule.eq_or_overrides_of_cut?_ne_none {first second : Rule} {text : List Char}
    (hfirst : first.cut? text ≠ none) (hsecond : second.cut? text ≠ none) :
    first = second ∨ first.overrides second = true ∨ second.overrides first = true := by
  obtain ⟨⟨word, rest⟩, hword⟩ := Option.ne_none_iff_exists'.1 hfirst
  obtain ⟨⟨other, rest'⟩, hother⟩ := Option.ne_none_iff_exists'.1 hsecond
  have hlongest := (cutsLongest first).isLongest hword
  have hlongest' := (cutsLongest second).isLongest hother
  exact eq_or_overrides hlongest.mem hlongest'.mem hlongest.isPrefix hlongest'.isPrefix

namespace Lexeme

variable {rules others : List Rule} {text : List Char}

/-- Of the rules that match a text, the first one in the list makes the first lexeme. -/
theorem idxOf_le_of_first? {lexeme : Lexeme} (h : first? rules text = some lexeme) {rival : Rule}
    (hrival : rival.cut? text ≠ none) : rules.idxOf lexeme.rule ≤ rules.idxOf rival := by
  obtain ⟨before, rule, after, hrules, hsome, hnone⟩ := List.findSome?_eq_some_iff.1 h
  obtain ⟨_, hcut, hlexeme⟩ := Option.map_eq_some_iff.1 hsome
  have hbefore : ∀ other : Rule, other.cut? text ≠ none → other ∉ before := by
    intro other hother hmem
    exact hother (Option.map_eq_none_iff.1 (hnone other hmem))
  have hrule : rule ∉ before := hbefore rule (by rw [hcut]; simp)
  rw [← hlexeme, hrules, List.idxOf_append_of_notMem hrule,
    List.idxOf_append_of_notMem (hbefore rival hrival), List.idxOf_cons_self]
  omega

/-- The first lexeme is what the first of the matching rules cuts off. -/
theorem first?_eq_some_iff_idxOf_le (hmem : ∀ rule : Rule, rule ∈ rules) {lexeme : Lexeme} :
    first? rules text = some lexeme ↔
      lexeme.rule.cut? text = some (lexeme.text, lexeme.rest) ∧
        ∀ rival : Rule, rival.cut? text ≠ none → rules.idxOf lexeme.rule ≤ rules.idxOf rival := by
  constructor
  · intro h
    exact ⟨cut?_of_first? h, fun rival hrival => idxOf_le_of_first? h hrival⟩
  · rintro ⟨hcut, hle⟩
    cases hfirst : first? rules text with
    | none =>
      have hnone := List.findSome?_eq_none_iff.1 hfirst lexeme.rule (hmem _)
      rw [hcut] at hnone
      cases hnone
    | some other =>
      have hother := cut?_of_first? hfirst
      have hle' : rules.idxOf other.rule ≤ rules.idxOf lexeme.rule :=
        idxOf_le_of_first? hfirst (by rw [hcut]; simp)
      have hrule : other.rule = lexeme.rule := by
        refine (List.idxOf_inj (hmem _)).1 (le_antisymm hle' ?_)
        exact hle other.rule (by rw [hother]; simp)
      rw [hrule, hcut, Option.some.injEq, Prod.mk.injEq] at hother
      rw [Option.some.injEq, Lexeme.mk.injEq]
      exact ⟨hrule, hother.1.symm, hother.2.symm⟩

/-- Lists of all rules that agree on the order of overlapping pairs find the same first lexemes. -/
theorem first?_eq_of_idxOf_lt_iff (hmem : ∀ rule : Rule, rule ∈ rules)
    (hmem' : ∀ rule : Rule, rule ∈ others)
    (h : ∀ first second : Rule, first.overrides second = true →
      (rules.idxOf first < rules.idxOf second ↔ others.idxOf first < others.idxOf second))
    (text : List Char) : first? rules text = first? others text := by
  -- rules that match one text overlap, so that their order is the same in both lists
  have hle : ∀ first second : Rule, first.cut? text ≠ none → second.cut? text ≠ none →
      (rules.idxOf first ≤ rules.idxOf second ↔ others.idxOf first ≤ others.idxOf second) := by
    intro first second hfirst hsecond
    rcases Rule.eq_or_overrides_of_cut?_ne_none hfirst hsecond with rfl | hover | hover
    · simp
    · have hne := Rule.ne_of_overrides hover
      have hidx : rules.idxOf first ≠ rules.idxOf second := (List.idxOf_inj (hmem first)).not.2 hne
      have hidx' : others.idxOf first ≠ others.idxOf second :=
        (List.idxOf_inj (hmem' first)).not.2 hne
      have hlt := h first second hover
      omega
    · have hlt := h second first hover
      omega
  apply Option.ext
  intro lexeme
  rw [first?_eq_some_iff_idxOf_le hmem, first?_eq_some_iff_idxOf_le hmem']
  refine and_congr_right fun hcut => forall_congr' fun rival => imp_congr_right fun hrival => ?_
  exact hle lexeme.rule rival (by rw [hcut]; simp) hrival

end Lexeme

/-- Where the first lexemes are the same, so is the whole scan. -/
theorem Scan.all_eq_of_first?_eq {rules others : List Rule}
    (h : ∀ text, Lexeme.first? rules text = Lexeme.first? others text) (text : List Char)
    (position : Position) : all rules ⟨text, position⟩ = all others ⟨text, position⟩ := by
  induction text using Scan.induction others generalizing position with
  | nil => rw [all_nil, all_nil]
  | noRule c text hnone => rw [all_of_none hnone, all_of_none ((h _).trans hnone)]
  | refused c text lexeme hfirst hread =>
    rw [all_of_refused hfirst hread, all_of_refused ((h _).trans hfirst) hread]
  | skipped c text lexeme hfirst hread ih =>
    rw [all_of_skipped hfirst hread, all_of_skipped ((h _).trans hfirst) hread, ih]
  | content c text lexeme content hfirst hread ih =>
    rw [all_of_content hfirst hread, all_of_content ((h _).trans hfirst) hread]
    dsimp only
    rw [ih]

/-! ## Texts that tell overlapping rules apart -/

namespace Rule

/-- A text tells two rules apart if only they match it, the first one as a whole, and the second one
makes a token of another kind of it. -/
structure Tells (first second : Rule) (text : List Char) : Prop where
  only : ∀ rule : Rule, rule.cut? text ≠ none → rule = first ∨ rule = second
  whole : first.cut? text = some (text, [])
  differs : ∃ word rest content, second.cut? text = some (word, rest) ∧
    second.read word = .content content ∧
    (first.read text = .skipped ∨
      ∃ other, first.read text = .content other ∧ other.kind ≠ content.kind)

/-- What a closed check shows of all listed rules holds of every rule. -/
theorem only_of_all {first second : Rule} {text : List Char}
    (h : (all.all fun rule => rule.cut? text = none ∨ rule = first ∨ rule = second) = true) :
    ∀ rule : Rule, rule.cut? text ≠ none → rule = first ∨ rule = second := by
  intro rule hrule
  have hcheck := of_decide_eq_true (List.all_eq_true.1 h rule (mem_all rule))
  exact hcheck.resolve_left hrule

/-- For every overlapping pair there is a text that tells its rules apart. -/
theorem exists_tells {first second : Rule} (h : first.overrides second = true) :
    ∃ text, Tells first second text := by
  unfold overrides at h
  split at h
  · exact ⟨['/', '/'], only_of_all (by decide), rfl, _, _, _, rfl, rfl, Or.inl rfl⟩
  · exact ⟨['#', '1', '.', '5'], only_of_all (by decide), rfl, _, _, _, rfl, rfl,
      Or.inr ⟨_, rfl, by decide⟩⟩
  · exact ⟨['t', 'r', 'u', 'e'], only_of_all (by decide), rfl, _, _, _, rfl, rfl,
      Or.inr ⟨_, rfl, by decide⟩⟩
  · exact ⟨['<', '='], only_of_all (by decide), rfl, _, _, _, rfl, rfl,
      Or.inr ⟨_, rfl, by decide⟩⟩
  · exact ⟨['<', '>'], only_of_all (by decide), rfl, _, _, _, rfl, rfl,
      Or.inr ⟨_, rfl, by decide⟩⟩
  · exact ⟨['>', '='], only_of_all (by decide), rfl, _, _, _, rfl, rfl,
      Or.inr ⟨_, rfl, by decide⟩⟩
  · exact ⟨[':', '='], only_of_all (by decide), rfl, _, _, _, rfl, rfl,
      Or.inr ⟨_, rfl, by decide⟩⟩
  · cases h

/-- Different rules both match some text exactly if one of them overrides the other. -/
theorem exists_cut?_ne_none_iff {first second : Rule} (hne : first ≠ second) :
    (∃ text, first.cut? text ≠ none ∧ second.cut? text ≠ none) ↔
      first.overrides second = true ∨ second.overrides first = true := by
  constructor
  · rintro ⟨text, hfirst, hsecond⟩
    exact (eq_or_overrides_of_cut?_ne_none hfirst hsecond).resolve_left hne
  · have hboth : ∀ {rule other : Rule}, rule.overrides other = true →
        ∃ text, rule.cut? text ≠ none ∧ other.cut? text ≠ none := by
      intro rule other hover
      obtain ⟨text, -, hwhole, _, _, _, hcut, -⟩ := exists_tells hover
      exact ⟨text, by simp [hwhole], by simp [hcut]⟩
    rintro (hover | hover)
    · exact hboth hover
    · obtain ⟨text, hsecond, hfirst⟩ := hboth hover
      exact ⟨text, hfirst, hsecond⟩

/-- The rules are listed in an order that keeps the overlapping pairs. -/
theorem idxOf_all_lt {first second : Rule} (h : first.overrides second = true) :
    all.idxOf first < all.idxOf second := by
  have hall : ∀ first ∈ all, ∀ second ∈ all, first.overrides second = true →
      all.idxOf first < all.idxOf second := by
    decide +kernel
  exact hall first (mem_all first) second (mem_all second) h

end Rule

/-! ## Items in another order -/

/-- Of two rules that are the only ones to match a text, the one that stands first takes it. -/
theorem Lexeme.first?_of_idxOf_lt {rules : List Rule} (hmem : ∀ rule : Rule, rule ∈ rules)
    {first second : Rule} {text word rest : List Char}
    (honly : ∀ rule : Rule, rule.cut? text ≠ none → rule = first ∨ rule = second)
    (hcut : first.cut? text = some (word, rest)) (hlt : rules.idxOf first < rules.idxOf second) :
    first? rules text = some ⟨first, word, rest⟩ := by
  rw [first?_eq_some_iff_idxOf_le hmem]
  refine ⟨hcut, ?_⟩
  intro rival hrival
  rcases honly rival hrival with rfl | rfl
  · exact le_rfl
  · exact hlt.le

namespace VariableTable

/-- An iteration by other rules gives the items from the start of the source on. -/
theorem run_rest_withRules (table : VariableTable) (rules : List Rule) (source : String) :
    (((Lexer.withRules rules source).rest symbols).run table).1.1 =
      table.itemsFrom rules (Point.start source.toList) := by
  rw [run_rest table (Lexer.withRules rules source) rfl]
  rfl

/-- Lists of all rules that agree on the order of overlapping pairs give the same items. -/
theorem itemsFrom_eq_of_idxOf_lt_iff (table : VariableTable) {rules others : List Rule}
    (hmem : ∀ rule : Rule, rule ∈ rules) (hmem' : ∀ rule : Rule, rule ∈ others)
    (h : ∀ first second : Rule, first.overrides second = true →
      (rules.idxOf first < rules.idxOf second ↔ others.idxOf first < others.idxOf second))
    (point : Point) : table.itemsFrom rules point = table.itemsFrom others point := by
  have hscan : Scan.all rules point = Scan.all others point :=
    Scan.all_eq_of_first?_eq (Lexeme.first?_eq_of_idxOf_lt_iff hmem hmem' h) _ _
  rw [itemsFrom, hscan, itemsFrom]

/-- If overlapping rules are turned round, a text that tells them apart has other items. -/
theorem itemsFrom_ne_of_tells (table : VariableTable) {rules : List Rule}
    (hmem : ∀ rule : Rule, rule ∈ rules) {first second : Rule}
    (hover : first.overrides second = true) (hlt : rules.idxOf second < rules.idxOf first)
    {text : List Char} (h : first.Tells second text) (position : Position) :
    table.itemsFrom rules ⟨text, position⟩ ≠ table.itemsFrom Rule.all ⟨text, position⟩ := by
  obtain ⟨word, rest, content, hcut, hread, hdiffers⟩ := h.differs
  have hsecond : Lexeme.first? rules text = some ⟨second, word, rest⟩ :=
    Lexeme.first?_of_idxOf_lt hmem (fun rule hrule => (h.only rule hrule).symm) hcut hlt
  have hfirst : Lexeme.first? Rule.all text = some ⟨first, text, []⟩ :=
    Lexeme.first?_of_idxOf_lt Rule.mem_all h.only h.whole (Rule.idxOf_all_lt hover)
  rw [itemsFrom_of_content table hsecond hread]
  rcases hdiffers with hskipped | ⟨other, hother, hkind⟩
  · rw [itemsFrom_of_skipped table hfirst hskipped, itemsFrom_nil]
    exact List.cons_ne_nil _ _
  · rw [itemsFrom_of_content table hfirst hother]
    intro heq
    rw [List.cons.injEq, Except.ok.injEq, Token.mk.injEq] at heq
    exact hkind heq.1.1.symm

/-- **Only the order of the seven overlapping pairs counts.** Permutations of the rules that agree
on it give every source the same items, and a permutation gives every source its items exactly if
it keeps the seven pairs as they are. Of all other rules no two match the same text. -/
theorem items_withRules_eq_iff {rules : List Rule} (hperm : rules.Perm Rule.all) :
    ((∀ (table : VariableTable) (source : String),
        (((Lexer.withRules rules source).rest symbols).run table).1.1 = table.items source) ↔
      ∀ first second : Rule, first.overrides second = true →
        rules.idxOf first < rules.idxOf second) ∧
    (∀ others : List Rule, others.Perm Rule.all →
      (∀ first second : Rule, first.overrides second = true →
        (rules.idxOf first < rules.idxOf second ↔ others.idxOf first < others.idxOf second)) →
      ∀ (table : VariableTable) (source : String),
        (((Lexer.withRules rules source).rest symbols).run table).1.1 =
          (((Lexer.withRules others source).rest symbols).run table).1.1) ∧
    ∀ first second : Rule, first ≠ second →
      ((∃ text, first.cut? text ≠ none ∧ second.cut? text ≠ none) ↔
        first.overrides second = true ∨ second.overrides first = true) := by
  have hmem : ∀ {order : List Rule}, order.Perm Rule.all → ∀ rule : Rule, rule ∈ order :=
    fun horder rule => horder.mem_iff.2 (Rule.mem_all rule)
  refine ⟨⟨?_, ?_⟩, ?_, fun first second hne => Rule.exists_cut?_ne_none_iff hne⟩
  · intro h first second hover
    by_contra hle
    have hne : rules.idxOf first ≠ rules.idxOf second :=
      (List.idxOf_inj (hmem hperm first)).not.2 (Rule.ne_of_overrides hover)
    obtain ⟨text, htells⟩ := Rule.exists_tells hover
    refine itemsFrom_ne_of_tells empty (hmem hperm) hover (by omega) htells Position.start ?_
    have hitems := h empty (String.ofList text)
    rw [run_rest_withRules, items_eq, String.toList_ofList] at hitems
    exact hitems
  · intro h table source
    rw [run_rest_withRules, items_eq]
    apply table.itemsFrom_eq_of_idxOf_lt_iff (hmem hperm) Rule.mem_all
    intro first second hover
    exact iff_of_true (h first second hover) (Rule.idxOf_all_lt hover)
  · intro others hothers h table source
    rw [run_rest_withRules, run_rest_withRules]
    exact table.itemsFrom_eq_of_idxOf_lt_iff (hmem hperm) (hmem hothers) h _

/-- If the rules are tried from the last one to the first one, some source has other items. -/
theorem exists_items_withRules_reverse_ne :
    Rule.all.reverse.Perm Rule.all ∧ ∃ (table : VariableTable) (source : String),
      (((Lexer.withRules Rule.all.reverse source).rest symbols).run table).1.1 ≠
        table.items source := by
  have hperm : Rule.all.reverse.Perm Rule.all := List.reverse_perm _
  refine ⟨hperm, ?_⟩
  by_contra hnone
  push Not at hnone
  have hlt := (items_withRules_eq_iff hperm).1.1 hnone .comment (.operator .slash) rfl
  exact absurd hlt (by decide)

end VariableTable

end MiniPascal
