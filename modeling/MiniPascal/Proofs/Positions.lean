import MiniPascal.Proofs.Calls
import MiniPascal.Proofs.Columns
import MiniPascal.Proofs.Slice

/-!
# Positions

A lexer counts lines while it goes, and only where it takes newlines. This module shows that it
counts right, whatever calls have been made on it. Main statement: after any calls the cursor has
counted the newlines before it, and all items that have been delivered are in their place and in
order (`Lexer.isPlaced_of_answers`).
-/

namespace MiniPascal

open Text

variable {σ η : Type}

/-! ## Items in their place -/

/-- The offset of a position lies between characters of a source, and its line is told by the
newlines before it. -/
def Position.Counts (source : List Char) (position : Position) : Prop :=
  ∃ before, takeBytes? position.offset source = some before ∧
    position.line = 1 + before.count '\n'

/-- The position of a token or of an error. -/
def Item.position : Item → Position
  | .ok token => token.position
  | .error error => error.position

/-- An item starts a text: a token if it shows the content of the first lexeme, an error if it names
the first character. -/
inductive Item.Starts : Item → List Char → Prop where
  | token {text : List Char} {lexeme : Lexeme} {content : Content} {token : Token}
      (hfirst : Lexeme.first? Rule.all text = some lexeme)
      (hread : lexeme.rule.read lexeme.text = .content content)
      (hshows : content.Shows token.kind token.value) : Starts (.ok token) text
  | error (c : Char) (tail : List Char) (position : Position) :
      Starts (.error (.illegalCharacter c position)) (c :: tail)

/-- An item is in its place in a source: its position counts what stands before it, the item starts
what follows, and the search for its byte finds the line with the number of its line and the column
at which it stands in that line. -/
structure Item.IsPlaced (source : String) (item : Item) : Prop where
  counts : item.position.Counts source.toList
  starts : ∃ rest, dropBytes? item.position.offset source.toList = some rest ∧ item.Starts rest
  lineAt? : ∃ earlier line later column, lines source.toList = earlier ++ line :: later ∧
    earlier.length + 1 = item.position.line ∧
    byteLength earlier.flatten + column = item.position.offset ∧
    Text.lineAt? source item.position.offset = some ⟨String.ofList line, column⟩

/-- An item stands before another one: at an earlier byte, and on no later line. -/
def Item.Precedes (first second : Item) : Prop :=
  first.position.offset < second.position.offset ∧ first.position.line ≤ second.position.line

namespace Point

variable {source : List Char} {point : Point}

/-- The position of a point of a source counts what stands before it. -/
theorem counts_of_leadsTo (h : (start source).LeadsTo point) : point.position.Counts source := by
  obtain ⟨before, happend, hposition⟩ := h
  refine ⟨before, ?_, ?_⟩
  · rw [takeBytes?_eq_some_iff]
    refine ⟨point.rest, happend, ?_⟩
    rw [hposition]
    exact (Nat.zero_add _).symm
  · rw [hposition]
    rfl

/-- Dropping the bytes before a point of a source leaves what is left to read there. -/
theorem dropBytes?_of_leadsTo (h : (start source).LeadsTo point) :
    dropBytes? point.position.offset source = some point.rest := by
  obtain ⟨before, happend, hposition⟩ := h
  rw [dropBytes?_eq_some_iff]
  refine ⟨before, happend, ?_⟩
  rw [hposition]
  exact (Nat.zero_add _).symm

end Point

/-- An item starts no empty text. -/
theorem Item.Starts.exists_eq_cons {item : Item} {text : List Char} (h : item.Starts text) :
    ∃ c tail, text = c :: tail := by
  cases h with
  | token hfirst _ _ => exact Lexeme.exists_eq_cons_of_first? hfirst
  | error c tail => exact ⟨c, tail, rfl⟩

/-- An item is in its place if it starts what is left to read at a point with its position. -/
theorem Item.isPlaced_of_leadsTo {source : String} {point : Point} {item : Item}
    (h : (Point.start source.toList).LeadsTo point) (hposition : item.position = point.position)
    (hstarts : item.Starts point.rest) : item.IsPlaced source := by
  refine ⟨?_, ?_, ?_⟩
  · rw [hposition]
    exact Point.counts_of_leadsTo h
  · rw [hposition]
    exact ⟨point.rest, Point.dropBytes?_of_leadsTo h, hstarts⟩
  · obtain ⟨c, tail, hrest⟩ := hstarts.exists_eq_cons
    obtain ⟨before, happend, hafter⟩ := h
    have hsource : source.toList = before ++ c :: tail := by
      rw [← hrest]
      exact happend.symm
    obtain ⟨earlier, start, others, later, hlines, hbefore, hcount⟩ :=
      exists_lines_eq before c tail
    rw [← hsource] at hlines
    have hoffset : byteLength earlier.flatten + byteLength start = item.position.offset := by
      rw [hposition, hafter, ← byteLength_append, hbefore]
      exact (Nat.zero_add _).symm
    refine ⟨earlier, start ++ c :: others, later, byteLength start, hlines, ?_, hoffset, ?_⟩
    · rw [hposition, hafter, hcount]
      exact Nat.add_comm _ _
    · rw [← hoffset]
      exact lineAt?_of_lines_eq hlines

/-! ## Positions along the steps of a scan -/

namespace Scan

variable {rules : List Rule} {point : Point}

/-- A finding starts at or behind the point of the step, and ends behind its start. -/
theorem exists_leadsTo_of_found {finding : Finding} (h : next rules point = .found finding) :
    ∃ stop, point.LeadsTo stop ∧ finding.position = stop.position ∧
      stop.LeadsTo finding.next ∧ finding.position.offset < finding.next.position.offset := by
  obtain ⟨stop, lexeme, hvisits, hfirst, -, hfinding⟩ := exists_visits_of_found h
  rw [hfinding]
  exact ⟨stop, hvisits.leadsTo, rfl, Point.leadsTo_past hfirst, Point.offset_lt_past hfirst⟩

/-- A token made of a finding starts what is left to read where the finding lies. -/
theorem exists_starts_of_found {finding : Finding} {token : Token}
    (h : next Rule.all point = .found finding) (hmakes : finding.Makes token) :
    ∃ stop, point.LeadsTo stop ∧ token.position = stop.position ∧
      Item.Starts (.ok token) stop.rest := by
  obtain ⟨stop, lexeme, hvisits, hfirst, hread, hfinding⟩ := exists_visits_of_found h
  refine ⟨stop, hvisits.leadsTo, ?_, .token hfirst hread hmakes.content_shows⟩
  rw [hmakes.position_eq, hfinding]

/-- The error of an ending starts what is left to read where the scan has ended. -/
theorem starts_of_ended {ending : Ending} {item : Item} (h : next rules point = .ended ending)
    (hitem : item ∈ ending.item?.toList) :
    item.position = ending.point.position ∧ item.Starts ending.point.rest := by
  obtain ⟨-, hdecides⟩ := visits_of_ended h
  cases ending with
  | finish stop => cases hitem
  | failure cause c stop =>
    obtain rfl := List.mem_singleton.1 hitem
    obtain ⟨tail, hrest⟩ : ∃ tail, stop.rest = c :: tail := by
      cases hdecides with
      | noRule hrest => exact ⟨_, hrest⟩
      | refused hrest => exact ⟨_, hrest⟩
    refine ⟨rfl, ?_⟩
    show Item.Starts _ stop.rest
    rw [hrest]
    exact .error c tail stop.position

end Scan

namespace Yields

variable {rules : List Rule} {point last : Point} {items : List Item}

/-- Steps of a scan lead from one point to another one at or behind it. -/
theorem leadsTo (h : Yields rules point items last) : point.LeadsTo last := by
  induction h with
  | nil point => exact .refl point
  | found hnext _ _ ih =>
    obtain ⟨stop, hstop, -, hpast, -⟩ := Scan.exists_leadsTo_of_found hnext
    exact (hstop.trans hpast).trans ih
  | ended hnext _ ih => exact (Scan.visits_of_ended hnext).1.leadsTo.trans ih

/-- Every item that is delivered starts what is left to read at a point with its position. -/
theorem exists_starts (h : Yields Rule.all point items last) :
    ∀ item ∈ items, ∃ stop, point.LeadsTo stop ∧ Item.position item = stop.position ∧
      Item.Starts item stop.rest := by
  induction h with
  | nil => simp
  | found hnext hmakes _ ih =>
    intro item hitem
    rcases List.mem_cons.1 hitem with rfl | hitem
    · exact Scan.exists_starts_of_found hnext hmakes
    · obtain ⟨start, hstart, -, hpast, -⟩ := Scan.exists_leadsTo_of_found hnext
      obtain ⟨stop, hstop, hitem⟩ := ih item hitem
      exact ⟨stop, (hstart.trans hpast).trans hstop, hitem⟩
  | ended hnext _ ih =>
    intro item hitem
    have hvisits := (Scan.visits_of_ended hnext).1
    rcases List.mem_append.1 hitem with hitem | hitem
    · exact ⟨_, hvisits.leadsTo, Scan.starts_of_ended hnext hitem⟩
    · obtain ⟨stop, hstop, hitem⟩ := ih item hitem
      exact ⟨stop, hvisits.leadsTo.trans hstop, hitem⟩

/-- No item lies before the point where the steps start. -/
theorem position_le (h : Yields Rule.all point items last) :
    ∀ item ∈ items, point.position.offset ≤ (Item.position item).offset ∧
      point.position.line ≤ (Item.position item).line := by
  intro item hitem
  obtain ⟨stop, hstop, hposition, -⟩ := h.exists_starts item hitem
  rw [hposition]
  exact ⟨hstop.offset_le, hstop.line_le⟩

/-- Steps from where a scan has ended deliver nothing but the item of this ending. -/
theorem mem_of_ended {ending : Ending} (hnext : Scan.next rules point = .ended ending)
    (hpoint : ending.point = point) (h : Yields rules point items last) :
    ∀ item ∈ items, item ∈ ending.item?.toList := by
  induction h with
  | nil => simp
  | found hnext' =>
    rw [hnext] at hnext'
    cases hnext'
  | ended hnext' _ ih =>
    rw [hnext] at hnext'
    cases hnext'
    intro item hitem
    rcases List.mem_append.1 hitem with hitem | hitem
    · exact hitem
    · rw [hpoint] at ih
      exact ih hnext rfl item hitem

/-- Items are delivered in the order of their positions, where only an error may be repeated. -/
theorem pairwise (h : Yields Rule.all point items last) :
    items.Pairwise fun first second =>
      Item.Precedes first second ∨ first = second ∧ ∃ error, first = .error error := by
  induction h with
  | nil => exact .nil
  | found hnext hmakes htail ih =>
    refine List.pairwise_cons.2 ⟨?_, ih⟩
    intro item hitem
    obtain ⟨stop, -, hposition, hpast, hlt⟩ := Scan.exists_leadsTo_of_found hnext
    obtain ⟨hoffset, hline⟩ := htail.position_le item hitem
    have hstart := hpast.line_le
    rw [← hposition] at hstart
    rw [← hmakes.position_eq] at hlt hstart
    exact Or.inl ⟨lt_of_lt_of_le hlt hoffset, le_trans hstart hline⟩
  | @ended point last ending items hnext htail ih =>
    refine List.pairwise_append.2 ⟨?_, ih, ?_⟩
    · cases ending.item? <;> simp
    · -- behind an ending only its own item can follow
      intro first hfirst second hsecond
      have hagain := Scan.next_point_of_ended hnext
      have hmem := htail.mem_of_ended hagain rfl second hsecond
      cases ending with
      | finish stop => cases hfirst
      | failure cause c stop =>
        obtain rfl := List.mem_singleton.1 hfirst
        obtain rfl := List.mem_singleton.1 hmem
        exact Or.inr ⟨rfl, _, rfl⟩

end Yields

/-! ## Positions after any calls -/

namespace Lexer

/-- The items of an iteration stand one before the other: only the last one may be an error. -/
theorem pairwise_precedes_of_rest (table : SymbolTable σ η) (state : σ) (source : String) :
    (((Lexer.start source).rest table).run state).1.1.Pairwise Item.Precedes := by
  have hdelivers := delivers_of_rest table state (Lexer.start source)
  obtain ⟨tokens, state', hrun, -⟩ := exists_run_rest table state (Lexer.start source) rfl
  have hpairwise := hdelivers.yields.pairwise
  rw [hrun] at hpairwise ⊢
  dsimp only at hpairwise ⊢
  rw [List.pairwise_append] at hpairwise ⊢
  obtain ⟨htokens, -, hlast⟩ := hpairwise
  have htoken : ∀ first ∈ (tokens.map .ok : List Item), ∀ second : Item,
      (Item.Precedes first second ∨ first = second ∧ ∃ error, first = .error error) →
        Item.Precedes first second := by
    rintro first hfirst second (hprecedes | ⟨-, error, rfl⟩)
    · exact hprecedes
    · simp at hfirst
  refine ⟨?_, ?_, ?_⟩
  · exact htokens.imp_of_mem fun hfirst _ h => htoken _ hfirst _ h
  · cases (Scan.all (Lexer.start source).rules (Lexer.start source).point).2.item? <;> simp
  · exact fun first hfirst second hsecond => htoken first hfirst second (hlast _ hfirst _ hsecond)

/-- **After any calls, positions are right.** Whatever the symbol table answers, the cursor has
counted the newlines before it, every item that has been delivered is in its place, and the items
come in order, where only an error may be repeated; in an iteration nothing is repeated. -/
theorem isPlaced_of_answers (table : SymbolTable σ η) (state : σ) (source : String)
    (calls : List Call) :
    let (answers, lexer) := (((Lexer.start source).answers table calls).run state).1
    Position.Counts source.toList ⟨lexer.cursor.line, lexer.cursor.offset⟩ ∧
      (∀ item ∈ answers.flatten, Item.IsPlaced source item) ∧
      answers.flatten.Pairwise (fun first second =>
        Item.Precedes first second ∨ first = second ∧ ∃ error, first = .error error) ∧
      ((items table source).run state).1.Pairwise Item.Precedes := by
  have hdelivers := delivers_of_answers table state (Lexer.start source) calls
  refine ⟨?_, ?_, hdelivers.yields.pairwise, pairwise_precedes_of_rest table state source⟩
  · exact Point.counts_of_leadsTo hdelivers.yields.leadsTo
  · intro item hitem
    obtain ⟨stop, hstop, hposition, hstarts⟩ := hdelivers.yields.exists_starts item hitem
    exact Item.isPlaced_of_leadsTo hstop hposition hstarts

end Lexer

end MiniPascal
