import MiniPascal.Proofs.Course
import MiniPascal.Proofs.Positions
import MiniPascal.Symbol.Recording

/-!
# Questions to the symbol table

Only the names in a source put questions to the symbol table. Whatever the table answers, and
however its state changes, each name is looked up step by step, and a placeholder is asked for only
if the lookup does not lead to an entry. Main statement: the questions of a whole run are those of
its identifiers, in the order of the source (`SymbolTable.exists_converses_of_tokenize`).
-/

namespace MiniPascal

open Text

variable {σ η : Type}

/-! ## Recorded runs -/

/-- From a state on, a computation and its recorded form have the same result and lead to the same
state, and the recorded form keeps the questions that have been asked meanwhile. -/
structure Records {α : Type} (plain : StateM σ α) (recorded : StateM (σ × List (Question η)) α)
    (first : σ) (questions : List (Question η)) (result : α) (last : σ) : Prop where
  run_plain : plain.run first = (result, last)
  run_recorded : ∀ asked, recorded.run (first, asked) = (result, (last, asked ++ questions))

namespace Records

variable {α β : Type} {first second third : σ} {questions others : List (Question η)}

/-- Where nothing is computed, nothing is asked. -/
theorem pure (result : α) (state : σ) :
    Records (η := η) (Pure.pure result) (Pure.pure result) state [] result state := by
  refine ⟨rfl, fun asked => ?_⟩
  rw [List.append_nil]
  rfl

/-- Of two computations in a row the questions are asked in a row. -/
theorem bind {plain : StateM σ α} {recorded : StateM (σ × List (Question η)) α} {result : α}
    {plainNext : α → StateM σ β} {recordedNext : α → StateM (σ × List (Question η)) β} {result' : β}
    (h : Records plain recorded first questions result second)
    (h' : Records (plainNext result) (recordedNext result) second others result' third) :
    Records (plain >>= plainNext) (recorded >>= recordedNext) first (questions ++ others) result'
      third := by
  constructor
  · rw [StateT.run_bind, h.run_plain]
    exact h'.run_plain
  · intro asked
    rw [StateT.run_bind, h.run_recorded, ← List.append_assoc]
    exact h'.run_recorded _

/-- A noted question is asked. -/
theorem noting {answer : StateM σ α} {result : α} (question : Question η)
    (h : answer.run first = (result, second)) :
    Records answer (SymbolTable.noting question answer) first [question] result second := by
  refine ⟨h, fun asked => ?_⟩
  have hnoting : (SymbolTable.noting question answer).run (first, asked) =
      ((answer.run first).1, ((answer.run first).2, asked ++ [question])) := rfl
  rw [hnoting, h]

end Records

/-! ## What a name gives rise to -/

namespace SymbolTable

variable (table : SymbolTable σ η) (name : String)

/-- A lookup of a name asks its questions, from one state of the table to another, and leads to an
entry or not. It goes on only as long as it gets the answer that it needs. -/
inductive LooksUp : σ → List (Question η) → Option SymbolEntry → σ → Prop where
  | unknown {first second : σ} (hcontains : (table.contains name).run first = (false, second)) :
      LooksUp first [.contains name] none second
  | noHandle {first second third : σ}
      (hcontains : (table.contains name).run first = (true, second))
      (hindex : (table.indexOf name).run second = (none, third)) :
      LooksUp first [.contains name, .indexOf name] none third
  | handle {first second third fourth : σ} {handle : η} {found? : Option SymbolEntry}
      (hcontains : (table.contains name).run first = (true, second))
      (hindex : (table.indexOf name).run second = (some handle, third))
      (hget : (table.get handle).run third = (found?, fourth)) :
      LooksUp first [.contains name, .indexOf name, .get handle] found? fourth

/-- A name is settled with an entry: the one to which its lookup leads, and if there is none, a
placeholder, which is asked for last. -/
inductive Settles : σ → List (Question η) → SymbolEntry → σ → Prop where
  | found {first last : σ} {questions : List (Question η)} {entry : SymbolEntry}
      (hlookup : LooksUp table name first questions (some entry) last) :
      Settles first questions entry last
  | placeholder {first second last : σ} {questions : List (Question η)} {entry : SymbolEntry}
      (hlookup : LooksUp table name first questions none second)
      (hplaceholder : (table.placeholder name).run second = (entry, last)) :
      Settles first (questions ++ [.placeholder name]) entry last

/-- A lookup asks its questions. -/
theorem exists_looksUp (state : σ) :
    ∃ found? questions last,
      Records (table.lookup? name) (table.recording.lookup? name) state questions found? last ∧
      table.LooksUp name state questions found? last := by
  unfold lookup?
  cases hcontains : (table.contains name).run state with
  | mk contained second =>
    have hfirst := Records.noting (.contains name : Question η) hcontains
    cases contained with
    | false => exact ⟨none, _, second, hfirst.bind (.pure none second), .unknown hcontains⟩
    | true =>
      cases hindex : (table.indexOf name).run second with
      | mk handle? third =>
        have hsecond := Records.noting (.indexOf name : Question η) hindex
        cases handle? with
        | none =>
          exact ⟨none, _, third, hfirst.bind (hsecond.bind (.pure none third)),
            .noHandle hcontains hindex⟩
        | some handle =>
          cases hget : (table.get handle).run third with
          | mk found? fourth =>
            have hthird := Records.noting (.get handle) hget
            exact ⟨found?, _, fourth, hfirst.bind (hsecond.bind hthird),
              .handle hcontains hindex hget⟩

/-- Resolving a name asks the questions that settle it. -/
theorem exists_settles (state : σ) :
    ∃ lookup questions last,
      Records (table.resolve name) (table.recording.resolve name) state questions lookup last ∧
      table.Settles name state questions lookup.entry last := by
  obtain ⟨found?, questions, second, hrecords, hlookup⟩ := table.exists_looksUp name state
  unfold resolve
  cases found? with
  | some entry =>
    refine ⟨⟨name, .table, entry⟩, _, second, hrecords.bind (.pure _ second), ?_⟩
    rw [List.append_nil]
    exact .found hlookup
  | none =>
    cases hplaceholder : (table.placeholder name).run second with
    | mk entry last =>
      have hmade := Records.noting (.placeholder name : Question η) hplaceholder
      refine ⟨⟨name, .placeholder, entry⟩, _, last,
        hrecords.bind (hmade.bind (.pure _ last)), ?_⟩
      exact .placeholder hlookup hplaceholder

end SymbolTable

/-! ## What findings give rise to -/

namespace Rule

/-- No literal is an identifier. -/
theorem kind_ne_identifier {rule : Rule} {lexeme : List Char} {kind : TokenKind}
    {value : TokenValue}
    (h : rule.read lexeme = .content (.literal kind value)) : kind ≠ .identifier := by
  rintro rfl
  cases rule with
  | integer =>
    rw [read, readInteger] at h
    split at h <;> cases h
  | real =>
    rw [read, readRealBy] at h
    split at h <;> cases h
  | identifier =>
    rw [read, readWord] at h
    split at h <;> cases h
  | _ => cases h

/-- A name is the lexeme itself, taken by the rule of identifiers. -/
theorem eq_of_read_eq_name {rule : Rule} {lexeme : List Char} {name : String}
    (h : rule.read lexeme = .content (.name name)) :
    rule = .identifier ∧ lexeme = name.toList := by
  cases rule with
  | integer =>
    rw [read, readInteger] at h
    split at h <;> cases h
  | real =>
    rw [read, readRealBy] at h
    split at h <;> cases h
  | identifier =>
    rw [read, readWord] at h
    split at h
    · cases h
    · cases h
      exact ⟨rfl, String.toList_ofList.symm⟩
  | _ => cases h

end Rule

/-- A name stands at a position of a text: it is the first lexeme of what is left there, and the
rule of identifiers has taken it. -/
def Position.HasName (text : List Char) (position : Position) (name : String) : Prop :=
  ∃ rest, dropBytes? position.offset text = some (name.toList ++ rest) ∧
    Lexeme.first? Rule.all (name.toList ++ rest) = some ⟨.identifier, name.toList, rest⟩

/-- A name stands where it has been read. -/
theorem Position.hasName_of_leadsTo {text : List Char} {stop : Point} {lexeme : Lexeme}
    {name : String} (hstop : (Point.start text).LeadsTo stop)
    (hfirst : Lexeme.first? Rule.all stop.rest = some lexeme)
    (hread : lexeme.rule.read lexeme.text = .content (.name name)) :
    stop.position.HasName text name := by
  obtain ⟨rule, word, rest⟩ := lexeme
  obtain ⟨rfl, rfl⟩ := Rule.eq_of_read_eq_name hread
  have happend := Lexeme.append_of_first? hfirst
  refine ⟨rest, ?_, ?_⟩
  · rw [happend]
    exact Point.dropBytes?_of_leadsTo hstop
  · rw [happend]
    exact hfirst

namespace Finding

variable (table : SymbolTable σ η) {finding : Finding}

/-- Pulling a literal asks nothing. -/
theorem records_pull_literal {kind : TokenKind} {value : TokenValue}
    (h : finding.content = .literal kind value) (state : σ) :
    Records (finding.pull table) (finding.pull table.recording) state []
      (.token finding.rule none ⟨kind, value, finding.position⟩) state := by
  unfold pull
  rw [h]
  exact .pure _ state

/-- Pulling a name asks the questions that settle it. -/
theorem exists_records_pull_name {name : String} (h : finding.content = .name name) (state : σ) :
    ∃ lookup questions last,
      Records (finding.pull table) (finding.pull table.recording) state questions
        (.token finding.rule (some lookup)
          ⟨.identifier, .identifier lookup.entry, finding.position⟩) last ∧
      table.Settles name state questions lookup.entry last := by
  obtain ⟨lookup, questions, last, hrecords, hsettles⟩ := table.exists_settles name state
  refine ⟨lookup, questions, last, ?_, hsettles⟩
  rw [← List.append_nil questions]
  unfold pull
  rw [h]
  exact hrecords.bind (.pure _ last)

end Finding

/-! ## Runs -/

/-- The questions that go with the tokens of a text, from one state of the table to another: an
identifier is the name that stands at its position, and has the entry with which that name is
settled; no other token asks anything. -/
inductive SymbolTable.Converses (table : SymbolTable σ η) (text : List Char) :
    σ → List Token → List (Question η) → σ → Prop where
  | nil (state : σ) : Converses table text state [] [] state
  | identifier {first second last : σ} {position : Position} {name : String} {entry : SymbolEntry}
      {tokens : List Token} {questions others : List (Question η)}
      (hname : position.HasName text name)
      (hsettles : table.Settles name first questions entry second)
      (htail : Converses table text second tokens others last) :
      Converses table text first (⟨.identifier, .identifier entry, position⟩ :: tokens)
        (questions ++ others) last
  | other {first last : σ} {token : Token} {tokens : List Token} {questions : List (Question η)}
      (hkind : token.kind ≠ .identifier)
      (htail : Converses table text first tokens questions last) :
      Converses table text first (token :: tokens) questions last

/-- **The questions of a scan go with its tokens.** Against the recording table the same course lies
ahead, and the questions that go with its tokens are kept. -/
theorem Ahead.exists_converses {table : SymbolTable σ η} {text : List Char} {point : Point}
    {state last : σ} {course : Course} (h : Ahead table Rule.all point state course last)
    (hpoint : (Point.start text).LeadsTo point) (asked : List (Question η)) :
    ∃ questions,
      Ahead table.recording Rule.all point (state, asked) course (last, asked ++ questions) ∧
      table.Converses text state course.tokens questions last := by
  induction h generalizing asked with
  | @ended point state ending hnext =>
    refine ⟨[], ?_, .nil state⟩
    rw [List.append_nil]
    exact .ended hnext
  | @found point state state' last finding lookup token tokens error? hnext hpull htail ih =>
    obtain ⟨stop, lexeme, hvisits, hfirst, hread, hfinding⟩ := Scan.exists_visits_of_found hnext
    have hstop := hpoint.trans hvisits.leadsTo
    have hafter : (Point.start text).LeadsTo finding.next := by
      rw [hfinding]
      exact hstop.trans (Point.leadsTo_past hfirst)
    have hposition : finding.position = stop.position := by rw [hfinding]
    cases hcontent : finding.content with
    | literal kind value =>
      have hrecords := finding.records_pull_literal table hcontent state
      rw [hrecords.run_plain] at hpull
      cases hpull
      obtain ⟨questions, hahead, hconverses⟩ := ih hafter asked
      have hrecorded := hrecords.run_recorded asked
      rw [List.append_nil] at hrecorded
      rw [hcontent] at hread
      exact ⟨questions, .found hnext hrecorded hahead,
        .other (Rule.kind_ne_identifier hread) hconverses⟩
    | name name =>
      obtain ⟨lookup, questions, second, hrecords, hsettles⟩ :=
        finding.exists_records_pull_name table hcontent state
      rw [hrecords.run_plain] at hpull
      cases hpull
      obtain ⟨others, hahead, hconverses⟩ := ih hafter (asked ++ questions)
      rw [List.append_assoc] at hahead
      rw [hcontent] at hread
      have hname := Position.hasName_of_leadsTo hstop hfirst hread
      rw [← hposition] at hname
      exact ⟨questions ++ others, .found hnext (hrecords.run_recorded asked) hahead,
        .identifier hname hsettles hconverses⟩

namespace SymbolTable

/-- **Only identifiers put questions to the symbol table.** Lexing against the table that records
has the outcome of lexing against the table itself, and leaves that table in the same state. The
questions that it has recorded are those of the identifiers of the run, also of those before an
error, in the order of the source, each of which is settled by its own questions alone. -/
theorem exists_converses_of_tokenize (table : SymbolTable σ η) (state : σ) (source : String) :
    ∃ (course : Course) (asked : List (Question η)) (last : σ),
      (items table source).run state = (course.items, last) ∧
      (tokenize table source).run state = (course.outcome, last) ∧
      (tokenize table.recording source).run (state, []) = (course.outcome, (last, asked)) ∧
      table.Converses source.toList state course.tokens asked last := by
  obtain ⟨course, last, hcourse⟩ := exists_ahead table Rule.all (Point.start source.toList) state
  obtain ⟨asked, hrecording, hconverses⟩ := hcourse.exists_converses (.refl _) []
  obtain ⟨hitems, htokenize⟩ := run_items_of_ahead hcourse
  exact ⟨course, asked, last, hitems, htokenize, (run_items_of_ahead hrecording).2, hconverses⟩

example : ((tokenize VariableTable.symbols.recording "if x true #1 y @").run (.empty, [])).2.2 =
    [.contains "x", .placeholder "x", .contains "y", .placeholder "y"] := by
  decide +kernel

end SymbolTable

end MiniPascal
