import MiniPascal.Proofs.Interleaving
import MiniPascal.Proofs.Lines

/-!
# Clean cuts

On its way through a source a lexer comes from lexeme to lexeme, and wherever it comes the source
may be cut. The text in front of the cut has the tokens that have been delivered by then and no
error, and the text behind it has, at shifted positions, the items that are still to come. Main
statement: `VariableTable.isCut_of_answers`, for all points to which any calls lead and for the one
where a source fails.
-/

namespace MiniPascal

open Text

/-! ## Points between lexemes -/

/-- Between two points there are lexemes, none of which is refused. -/
inductive Point.Passes (rules : List Rule) : Point → Point → Prop where
  | refl (point : Point) : Passes rules point point
  | past {point stop : Point} {lexeme : Lexeme}
      (hfirst : Lexeme.first? rules point.rest = some lexeme)
      (hread : lexeme.rule.read lexeme.text ≠ .refused)
      (htail : Passes rules (point.past lexeme) stop) : Passes rules point stop

namespace Point.Passes

variable {rules : List Rule} {first second third : Point}

/-- The lexemes between two points and those behind them are lexemes in a row. -/
theorem trans (h : first.Passes rules second) (h' : second.Passes rules third) :
    first.Passes rules third := by
  induction h with
  | refl => exact h'
  | past hfirst hread _ ih => exact .past hfirst hread (ih h')

/-- A step passes over lexemes to the points that it visits. -/
theorem of_visits (h : first.Visits rules second) : first.Passes rules second := by
  induction h with
  | start => exact .refl first
  | past _ hfirst hread ih =>
    refine ih.trans (.past hfirst ?_ (.refl _))
    rw [hread]
    exact Reading.noConfusion

/-- Steps pass over lexemes. -/
theorem of_yields {items : List Item} (h : Yields rules first items second) :
    first.Passes rules second := by
  induction h with
  | nil point => exact .refl point
  | found hnext _ _ ih =>
    obtain ⟨stop, lexeme, hvisits, hfirst, hread, hfinding⟩ := Scan.exists_visits_of_found hnext
    rw [hfinding] at ih
    refine (of_visits hvisits).trans (.past hfirst ?_ ih)
    rw [hread]
    exact Reading.noConfusion
  | ended hnext _ ih => exact (of_visits (Scan.visits_of_ended hnext).1).trans ih

end Point.Passes

/-! ## Texts in front of a cut -/

/-- A lexeme is the first one also if the text behind it is cut off anywhere. -/
theorem Lexeme.first?_of_append {rule : Rule} {word between : List Char} (rest : List Char)
    (h : first? Rule.all (word ++ (between ++ rest)) = some ⟨rule, word, between ++ rest⟩) :
    first? Rule.all (word ++ between) = some ⟨rule, word, between⟩ := by
  refine first?_of_within h ?_
  intro rival long _ _ hlong
  rw [← List.append_assoc]
  exact hlong.trans (List.prefix_append _ _)

/-- **The text before a point has only tokens**, and these come before the items from there on. -/
theorem VariableTable.exists_tokens_of_passes (table : VariableTable) {point stop : Point}
    (h : point.Passes Rule.all stop) :
    ∃ (before : List Char) (tokens : List Token), before ++ stop.rest = point.rest ∧
      stop.position = point.position.after before ∧
      table.itemsFrom Rule.all ⟨before, point.position⟩ = tokens.map .ok ∧
      table.itemsFrom Rule.all point = tokens.map .ok ++ table.itemsFrom Rule.all stop := by
  induction h with
  | refl point =>
    exact ⟨[], [], rfl, rfl, table.itemsFrom_nil, rfl⟩
  | @past point stop lexeme hfirst hread _ ih =>
    obtain ⟨before, tokens, hrest, hposition, hbefore, hitems⟩ := ih
    rw [Point.past_eq (Lexeme.spells_of_first? hfirst)] at hrest hposition hbefore hitems
    dsimp only at hrest hposition hbefore hitems
    -- the lexeme is the first one again where nothing but the text before the cut follows it
    have hcut : Lexeme.first? Rule.all (lexeme.text ++ before) =
        some ⟨lexeme.rule, lexeme.text, before⟩ := by
      refine Lexeme.first?_of_append stop.rest ?_
      rw [hrest, Lexeme.append_of_first? hfirst]
      exact hfirst
    have happend : (lexeme.text ++ before) ++ stop.rest = point.rest := by
      rw [List.append_assoc, hrest, Lexeme.append_of_first? hfirst]
    have hafter : stop.position = point.position.after (lexeme.text ++ before) := by
      rw [Position.after_append, hposition]
    cases hcase : lexeme.rule.read lexeme.text with
    | refused => exact absurd hcase hread
    | skipped =>
      refine ⟨lexeme.text ++ before, tokens, happend, hafter, ?_, ?_⟩
      · rw [itemsFrom_of_skipped table hcut hcase]
        exact hbefore
      · rw [← hitems]
        exact itemsFrom_of_skipped table hfirst hcase
    | content content =>
      refine ⟨lexeme.text ++ before,
        ⟨content.kind, content.value table, point.position⟩ :: tokens, happend, hafter, ?_, ?_⟩
      · rw [itemsFrom_of_content table hcut hcase, List.map_cons, ← hbefore]
      · rw [List.map_cons, List.cons_append, ← hitems]
        exact itemsFrom_of_content table hfirst hcase

/-! ## Cuts of a source -/

/-- A source may be cut at an offset: the text in front of it has the given tokens and no error, and
the text behind it has the given items, when they are shifted by the lines and bytes in front. -/
def VariableTable.IsCut (table : VariableTable) (source : String) (offset : Nat)
    (tokens : List Token) (left : List Item) : Prop :=
  ∃ before after : String, before ++ after = source ∧ byteLength before.toList = offset ∧
    table.tokenize before = .ok tokens ∧
    (table.items after).map (Item.shift (before.toList.count '\n') offset) = left

namespace VariableTable

variable {table : VariableTable} {source : String}

/-- A source may be cut wherever lexemes lead that are not refused, and then the text in front has
the tokens that come before the items from there on. -/
theorem isCut_of_passes (table : VariableTable) {stop : Point} {tokens : List Token}
    (h : (Point.start source.toList).Passes Rule.all stop)
    (hitems : table.items source = tokens.map .ok ++ table.itemsFrom Rule.all stop) :
    table.IsCut source stop.position.offset tokens (table.itemsFrom Rule.all stop) := by
  obtain ⟨before, others, hrest, hposition, hbefore, hsplit⟩ := table.exists_tokens_of_passes h
  obtain rfl : others = tokens := by
    rw [← items_eq, hitems] at hsplit
    exact (List.map_injective_iff.2 fun _ _ => Except.ok.inj) (List.append_cancel_right hsplit).symm
  have hoffset : stop.position.offset = byteLength before := by
    rw [hposition]
    exact Nat.zero_add _
  have hshift : stop.position = Position.start.shift (before.count '\n') (byteLength before) := by
    rw [hposition, Position.after_eq_shift]
    rfl
  refine ⟨String.ofList before, String.ofList stop.rest, ?_, ?_, ?_, ?_⟩
  · rw [← String.ofList_append, hrest]
    exact String.ofList_toList
  · rw [String.toList_ofList, hoffset]
  · rw [tokenize_eq, collect_eq_ok_iff, items_eq, String.toList_ofList]
    exact hbefore
  · rw [items_eq, String.toList_ofList, String.toList_ofList, hoffset, Point.start,
      ← itemsFrom_shift, ← hshift]

/-- From all points that a step visits there are the same items. -/
theorem itemsFrom_of_visits (table : VariableTable) {rules : List Rule} {point stop : Point}
    (h : point.Visits rules stop) : table.itemsFrom rules point = table.itemsFrom rules stop := by
  rw [itemsFrom, itemsFrom, Scan.all_eq point, Scan.all_eq stop, Scan.next_of_visits h]

/-- The items of the course ahead are those from the point on, and the table stays as it is. -/
theorem items_of_ahead {rules : List Rule} {point : Point} {course : Course} {last : VariableTable}
    (h : Ahead symbols rules point table course last) :
    last = table ∧ course.items = table.itemsFrom rules point := by
  obtain ⟨stop, hrun, -⟩ := Lexer.exists_run_rest_of_ahead ⟨"", rules, point, false⟩ h rfl
  rw [run_rest table ⟨"", rules, point, false⟩ rfl, Prod.mk.injEq, Prod.mk.injEq] at hrun
  exact ⟨hrun.2.symm, hrun.1.1.symm⟩

/-- Whatever has been called, the items of the source are the tokens that have been delivered and
those from the point of the lexer on, and the table stays as it is. -/
theorem items_of_answers (table : VariableTable) (source : String) (calls : List Call) :
    let ((answers, lexer), state) := ((Lexer.start source).answers symbols calls).run table
    state = table ∧ lexer.rules = Rule.all ∧
      table.items source = (answers.flatten.filterMap Item.token?).map .ok ++
        table.itemsFrom Rule.all lexer.point := by
  obtain ⟨course, last, hcourse⟩ := exists_ahead symbols Rule.all (Point.start source.toList) table
  obtain ⟨hlast, hitems⟩ := items_of_ahead hcourse
  have hfollows := (Follows.start (Lexer.start source) hcourse rfl).run_answers calls
  have hrules := (Lexer.delivers_of_answers symbols table (Lexer.start source) calls).rules_eq
  have hlength := Lexer.length_answers symbols table (Lexer.start source) calls
  rw [List.nil_append] at hfollows
  generalize ((Lexer.start source).answers symbols calls).run table = run at *
  obtain ⟨⟨answers, lexer⟩, state⟩ := run
  dsimp only at hfollows hrules hlength ⊢
  have hbegin := hfollows.isPrefix
  obtain ⟨hstate, hleft⟩ := items_of_ahead hfollows.ahead
  obtain rfl : state = table := hstate.symm.trans hlast
  rw [Turn.flatMap_tokens_zip hlength] at hbegin hleft
  refine ⟨rfl, hrules, ?_⟩
  rw [items_eq, ← hitems, Course.items_eq_append_of_prefix hbegin, hleft, hrules]
  rfl

/-- Where a source fails it may be cut: the text in front has all tokens before the error, and the
text behind nothing but the error. -/
theorem isCut_of_items_eq {tokens : List Token} {error : Error}
    (hitems : table.items source = tokens.map .ok ++ [.error error]) :
    table.IsCut source error.position.offset tokens [.error error] := by
  obtain ⟨course, last, hcourse⟩ := exists_ahead symbols Rule.all (Point.start source.toList) table
  obtain ⟨rfl, hcourseItems⟩ := items_of_ahead hcourse
  obtain rfl : course = ⟨tokens, some error⟩ := by
    apply Course.eq_of_items_eq
    rw [hcourseItems, ← items_eq, hitems]
    rfl
  -- the scan fails at a point that it reaches, and the error is all that is left there
  obtain ⟨stop, hrun, hahead, hself, -⟩ :=
    Lexer.exists_run_rest_of_ahead (Lexer.start source) hcourse rfl
  have hyields := (Lexer.delivers_of_rest symbols last (Lexer.start source)).yields
  rw [hrun] at hyields
  have hleft : last.itemsFrom Rule.all stop = [.error error] := by
    rw [Course.drop, List.drop_length] at hahead
    exact (items_of_ahead hahead).2.symm
  rw [hahead.position_eq hself rfl, ← hleft]
  rw [← hleft] at hitems
  exact last.isCut_of_passes (.of_yields hyields) hitems

/-- **Every point that is reached is a clean cut.** Wherever the next step comes after any calls,
the text in front has the tokens that have been delivered and no error, and the text behind has the
items that are still to come. Where a source fails, the text in front has all tokens before the
error. -/
theorem isCut_of_answers (table : VariableTable) (source : String) :
    (∀ calls : List Call,
      let ((answers, lexer), state) := ((Lexer.start source).answers symbols calls).run table
      let emitted := answers.flatten.filterMap Item.token?
      ∀ stop, lexer.point.Visits lexer.rules stop →
        ∃ left, table.IsCut source stop.position.offset emitted left ∧
          table.items source = emitted.map .ok ++ left ∧
          (lexer.finished = false → ((lexer.rest symbols).run state).1.1 = left)) ∧
    ∀ tokens error, table.items source = tokens.map .ok ++ [.error error] →
      table.IsCut source error.position.offset tokens [.error error] := by
  constructor
  · intro calls
    have hitems := items_of_answers table source calls
    have hyields := (Lexer.delivers_of_answers symbols table (Lexer.start source) calls).yields
    generalize ((Lexer.start source).answers symbols calls).run table = run at *
    obtain ⟨⟨answers, lexer⟩, state⟩ := run
    obtain ⟨rfl, hrules, hitems⟩ := hitems
    dsimp only at hyields ⊢
    intro stop hstop
    rw [hrules] at hstop
    have hpasses := (Point.Passes.of_yields hyields).trans (.of_visits hstop)
    have hleft := state.itemsFrom_of_visits hstop
    refine ⟨state.itemsFrom Rule.all stop, state.isCut_of_passes hpasses ?_, ?_, ?_⟩
    · rw [hitems, hleft]
    · rw [hitems, hleft]
    · intro hfinished
      rw [run_rest state lexer hfinished, hrules, ← hleft]
  · intro tokens error hitems
    exact isCut_of_items_eq hitems

end VariableTable

end MiniPascal
