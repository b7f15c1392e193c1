import MiniPascal.Proofs.Items
import MiniPascal.Proofs.Points
import Mathlib.Data.List.Forall2

/-!
# Calls on a lexer

A lexer may be asked for the next token, for the next item of the iteration, or for all items that
are left of it, in any order and also after a failure. Whatever is asked and whatever the symbol
table answers, the items that are delivered follow the steps of a scan. Main statement:
`Lexer.delivers_of_answers`, which reduces what holds of any calls to what holds along the steps of
a scan (`Yields`).
-/

namespace MiniPascal

variable {σ η : Type}

/-! ## Calls and answers -/

/-- A call on a lexer. -/
inductive Call where
  | nextToken
  | next
  | rest
  deriving DecidableEq

/-- The items in a pulled token, in an error, or in the end of the source. -/
def pulledItems : Except Error (Option Token) → List Item
  | .ok token? => (token?.map .ok).toList
  | .error error => [.error error]

namespace Lexer

/-- The items that a call delivers, and the lexer after it. -/
def answer (table : SymbolTable σ η) (lexer : Lexer) : Call → StateM σ (List Item × Lexer)
  | .nextToken => do
    let (pulled, lexer) ← lexer.nextToken table
    return (pulledItems pulled, lexer)
  | .next => do
    let (item?, lexer) ← lexer.next table
    return (item?.toList, lexer)
  | .rest => lexer.rest table

/-- The items that each one of some calls delivers, and the lexer after the last one. -/
def answers (table : SymbolTable σ η) (lexer : Lexer) :
    List Call → StateM σ (List (List Item) × Lexer)
  | [] => return ([], lexer)
  | call :: calls => do
    let (items, lexer) ← lexer.answer table call
    let (others, lexer) ← lexer.answers table calls
    return (items :: others, lexer)

end Lexer

/-! ## Tokens of findings -/

/-- A kind and a value show a content: those of a literal as they stand, and for a name any
entry. -/
inductive Content.Shows : Content → TokenKind → TokenValue → Prop where
  | literal (kind : TokenKind) (value : TokenValue) : Shows (.literal kind value) kind value
  | name (spelling : String) (entry : SymbolEntry) :
      Shows (.name spelling) .identifier (.identifier entry)

/-- A token made of a finding shows its content, at its position. -/
structure Finding.Makes (finding : Finding) (token : Token) : Prop where
  content_shows : finding.content.Shows token.kind token.value
  position_eq : token.position = finding.position

/-- Whatever the symbol table answers, pulling a finding makes a token of it. -/
theorem Finding.exists_run_pull (table : SymbolTable σ η) (finding : Finding) (state : σ) :
    ∃ lookup token state', (finding.pull table).run state =
      (.token finding.rule lookup token, state') ∧ finding.Makes token := by
  obtain ⟨rule, position, content, point⟩ := finding
  cases content with
  | literal kind value => exact ⟨none, ⟨kind, value, position⟩, state, rfl, .literal _ _, rfl⟩
  | name spelling =>
    cases hresolve : (table.resolve spelling).run state with
    | mk lookup state' =>
      refine ⟨some lookup, ⟨.identifier, .identifier lookup.entry, position⟩, state', ?_,
        .name _ _, rfl⟩
      unfold pull
      rw [StateT.run_bind, hresolve]
      rfl

/-- A pull gives a token that is made of a finding, with the rule of the finding. -/
inductive Finding.IsPulled (finding : Finding) : Pull → Prop where
  | token {lookup : Option Lookup} {token : Token} (hmakes : finding.Makes token) :
      IsPulled finding (.token finding.rule lookup token)

/-- Whatever the symbol table answers, pulling findings in a row gives a token of each. -/
theorem Finding.exists_run_mapM_pull (table : SymbolTable σ η) (findings : List Finding)
    (state : σ) : ∃ pulls last, (findings.mapM (Finding.pull table)).run state = (pulls, last) ∧
      List.Forall₂ IsPulled findings pulls := by
  induction findings generalizing state with
  | nil => exact ⟨[], state, rfl, .nil⟩
  | cons finding findings ih =>
    obtain ⟨lookup, token, next, hrun, hmakes⟩ := finding.exists_run_pull table state
    obtain ⟨pulls, last, hpulls, hpulled⟩ := ih next
    refine ⟨.token finding.rule lookup token :: pulls, last, ?_, .cons (.token hmakes) hpulled⟩
    rw [List.mapM_cons, StateT.run_bind, hrun]
    show (findings.mapM (pull table) >>= _).run next = _
    rw [StateT.run_bind, hpulls]
    rfl

/-- The items of pulled findings are tokens made of them. -/
theorem Finding.exists_filterMap_item?_eq {findings : List Finding} {pulls : List Pull}
    (h : List.Forall₂ IsPulled findings pulls) :
    ∃ tokens : List Token, pulls.filterMap Pull.item? = tokens.map .ok ∧
      List.Forall₂ Makes findings tokens := by
  induction h with
  | nil => exact ⟨[], rfl, .nil⟩
  | cons hpulled _ ih =>
    obtain ⟨tokens, htokens, hmakes⟩ := ih
    cases hpulled with
    | @token lookup token hmakesToken =>
      refine ⟨token :: tokens, ?_, .cons hmakesToken hmakes⟩
      rw [List.filterMap_cons, htokens]
      rfl

/-! ## Runs of calls -/

/-- The items that are delivered by steps of a scan, from one point to another. After an ending,
further steps end in the same way. -/
inductive Yields (rules : List Rule) : Point → List Item → Point → Prop where
  | nil (point : Point) : Yields rules point [] point
  | found {point last : Point} {finding : Finding} {token : Token} {items : List Item}
      (hnext : Scan.next rules point = .found finding) (hmakes : finding.Makes token)
      (htail : Yields rules finding.next items last) : Yields rules point (.ok token :: items) last
  | ended {point last : Point} {ending : Ending} {items : List Item}
      (hnext : Scan.next rules point = .ended ending)
      (htail : Yields rules ending.point items last) :
      Yields rules point (ending.item?.toList ++ items) last

/-- Steps may be followed by further steps. -/
theorem Yields.append {rules : List Rule} {first second third : Point} {items others : List Item}
    (h : Yields rules first items second) (h' : Yields rules second others third) :
    Yields rules first (items ++ others) third := by
  induction h with
  | nil => exact h'
  | found hnext hmakes _ ih => exact .found hnext hmakes (ih h')
  | ended hnext _ ih =>
    rw [List.append_assoc]
    exact .ended hnext (ih h')

namespace Lexer

/-- A lexer delivers items on its way to a later state, in which it still reads the same source by
the same rules. -/
structure Delivers (lexer : Lexer) (items : List Item) (later : Lexer) : Prop where
  source_eq : later.source = lexer.source
  rules_eq : later.rules = lexer.rules
  yields : Yields lexer.rules lexer.point items later.point

/-- A lexer that is not asked delivers nothing. -/
theorem Delivers.refl (lexer : Lexer) : lexer.Delivers [] lexer :=
  ⟨rfl, rfl, .nil _⟩

/-- What is delivered before and after a state is delivered in a row. -/
theorem Delivers.append {first second third : Lexer} {items others : List Item}
    (h : first.Delivers items second) (h' : second.Delivers others third) :
    first.Delivers (items ++ others) third := by
  refine ⟨h'.source_eq.trans h.source_eq, h'.rules_eq.trans h.rules_eq, h.yields.append ?_⟩
  rw [← h.rules_eq]
  exact h'.yields

variable (table : SymbolTable σ η) {lexer : Lexer} (state : σ)

/-- Pulling where a scan finds something pulls the finding. -/
theorem run_pull_of_found {finding : Finding}
    (h : Scan.next lexer.rules lexer.point = .found finding) {pull : Pull} {state' : σ}
    (hpull : (finding.pull table).run state = (pull, state')) :
    (lexer.pull table).run state = ((pull, { lexer with point := finding.next }), state') := by
  simp only [Lexer.pull, h]
  rw [StateT.run_bind, hpull]
  rfl

/-- Pulling where a scan finds something gives a token of the finding. -/
theorem exists_run_pull_of_found {finding : Finding}
    (h : Scan.next lexer.rules lexer.point = .found finding) :
    ∃ lookup token state', (lexer.pull table).run state =
        ((.token finding.rule lookup token, { lexer with point := finding.next }), state') ∧
      finding.Makes token := by
  obtain ⟨lookup, token, state', hrun, hmakes⟩ := finding.exists_run_pull table state
  exact ⟨lookup, token, state', run_pull_of_found table state h hrun, hmakes⟩

/-- Pulling where a scan ends tells how it ends. -/
theorem run_pull_of_ended {ending : Ending}
    (h : Scan.next lexer.rules lexer.point = .ended ending) :
    (lexer.pull table).run state =
      ((ending.pull, { lexer with point := ending.point }), state) := by
  simp only [pull, h]
  rfl

/-- A pull delivers the item of its outcome. -/
theorem delivers_of_pull (lexer : Lexer) :
    lexer.Delivers ((lexer.pull table).run state).1.1.item?.toList
      ((lexer.pull table).run state).1.2 := by
  cases hnext : Scan.next lexer.rules lexer.point with
  | found finding =>
    obtain ⟨lookup, token, state', hrun, hmakes⟩ := exists_run_pull_of_found table state hnext
    rw [hrun]
    exact ⟨rfl, rfl, .found hnext hmakes (.nil _)⟩
  | ended ending =>
    rw [run_pull_of_ended table state hnext]
    have hitem : ending.pull.item?.toList = ending.item?.toList ++ [] := by
      cases ending <;> rfl
    refine ⟨rfl, rfl, ?_⟩
    rw [hitem]
    exact .ended hnext (.nil _)

/-- A pulled token, error or end is an item or none. -/
theorem pulledItems_token? (pull : Pull) : pulledItems pull.token? = pull.item?.toList := by
  cases pull <;> rfl

/-- Asking for the next token delivers what is pulled. -/
theorem delivers_of_nextToken (lexer : Lexer) :
    lexer.Delivers (pulledItems ((lexer.nextToken table).run state).1.1)
      ((lexer.nextToken table).run state).1.2 := by
  have hpull := delivers_of_pull table state lexer
  rw [← pulledItems_token?] at hpull
  exact hpull

/-! ## Iterating -/

/-- Iterating where a scan finds something pulls the finding and gives its token. -/
theorem run_next_of_found (hfinished : lexer.finished = false) {finding : Finding}
    (h : Scan.next lexer.rules lexer.point = .found finding) {lookup : Option Lookup}
    {token : Token} {state' : σ}
    (hpull : (finding.pull table).run state = (.token finding.rule lookup token, state')) :
    (lexer.next table).run state =
      ((some (.ok token), { lexer with point := finding.next }), state') := by
  unfold next
  rw [if_neg (by rw [hfinished]; exact Bool.false_ne_true), StateT.run_bind,
    run_pull_of_found table state h hpull]
  rfl

/-- Iterating where a scan finds something gives a token of the finding. -/
theorem exists_run_next_of_found (hfinished : lexer.finished = false) {finding : Finding}
    (h : Scan.next lexer.rules lexer.point = .found finding) :
    ∃ token state', (lexer.next table).run state =
        ((some (.ok token), { lexer with point := finding.next }), state') ∧
      finding.Makes token := by
  obtain ⟨lookup, token, state', hrun, hmakes⟩ := finding.exists_run_pull table state
  exact ⟨token, state', run_next_of_found table state hfinished h hrun, hmakes⟩

/-- Iterating where a scan ends finishes the iteration. -/
theorem run_next_of_ended (hfinished : lexer.finished = false) {ending : Ending}
    (h : Scan.next lexer.rules lexer.point = .ended ending) :
    (lexer.next table).run state =
      ((ending.item?, { lexer with point := ending.point, finished := true }), state) := by
  unfold next
  rw [if_neg (by rw [hfinished]; exact Bool.false_ne_true), StateT.run_bind,
    run_pull_of_ended table state h]
  cases ending <;> rfl

/-- A finished iteration gives nothing and stays as it is. -/
theorem run_next_of_finished (hfinished : lexer.finished = true) :
    (lexer.next table).run state = ((none, lexer), state) := by
  unfold next
  rw [if_pos hfinished]
  rfl

/-- Of a finished iteration nothing is left. -/
theorem run_rest_of_finished (hfinished : lexer.finished = true) :
    (lexer.rest table).run state = (([], lexer), state) := by
  unfold rest pulls
  rw [if_pos hfinished]
  rfl

/-- A step of the iteration delivers its item. -/
theorem delivers_of_next (lexer : Lexer) :
    lexer.Delivers ((lexer.next table).run state).1.1.toList
      ((lexer.next table).run state).1.2 := by
  cases hfinished : lexer.finished with
  | true =>
    rw [run_next_of_finished table state hfinished]
    exact .refl lexer
  | false =>
    cases hnext : Scan.next lexer.rules lexer.point with
    | found finding =>
      obtain ⟨token, state', hrun, hmakes⟩ := exists_run_next_of_found table state hfinished hnext
      rw [hrun]
      exact ⟨rfl, rfl, .found hnext hmakes (.nil _)⟩
    | ended ending =>
      rw [run_next_of_ended table state hfinished hnext]
      refine ⟨rfl, rfl, ?_⟩
      show Yields lexer.rules lexer.point ending.item?.toList ending.point
      rw [← List.append_nil ending.item?.toList]
      exact .ended hnext (.nil _)

/-- What is left to pull are tokens of the findings that are left, and how the scan ends. -/
theorem exists_run_pulls (lexer : Lexer) (hfinished : lexer.finished = false) :
    ∃ pulls state', (lexer.pulls table).run state =
        ((pulls ++ [(Scan.all lexer.rules lexer.point).2.pull],
          { lexer with
            point := (Scan.all lexer.rules lexer.point).2.point
            finished := true }), state') ∧
      List.Forall₂ Finding.IsPulled (Scan.all lexer.rules lexer.point).1 pulls := by
  obtain ⟨pulls, state', hrun, hpulled⟩ :=
    Finding.exists_run_mapM_pull table (Scan.all lexer.rules lexer.point).1 state
  refine ⟨pulls, state', ?_, hpulled⟩
  unfold Lexer.pulls
  rw [hfinished]
  show (_ >>= _ : StateM σ _).run state = _
  rw [StateT.run_bind, hrun]
  rfl

/-- What is left of an iteration are tokens of the findings that are left, and how the scan
ends. -/
theorem exists_run_rest (lexer : Lexer) (hfinished : lexer.finished = false) :
    ∃ tokens state', (lexer.rest table).run state =
        ((tokens.map .ok ++ (Scan.all lexer.rules lexer.point).2.item?.toList,
          { lexer with
            point := (Scan.all lexer.rules lexer.point).2.point
            finished := true }), state') ∧
      List.Forall₂ Finding.Makes (Scan.all lexer.rules lexer.point).1 tokens := by
  obtain ⟨pulls, state', hrun, hpulled⟩ := exists_run_pulls table state lexer hfinished
  obtain ⟨tokens, htokens, hmakes⟩ := Finding.exists_filterMap_item?_eq hpulled
  refine ⟨tokens, state', ?_, hmakes⟩
  unfold rest
  rw [StateT.run_bind, hrun]
  show ((List.filterMap Pull.item? (_ ++ _), _), _) = _
  rw [List.filterMap_append, htokens]
  cases (Scan.all lexer.rules lexer.point).2 <;> rfl

end Lexer

/-- The steps of a whole scan deliver tokens of its findings and the item of its ending. -/
theorem yields_all {rules : List Rule} {point : Point} {tokens : List Token}
    (h : List.Forall₂ Finding.Makes (Scan.all rules point).1 tokens) :
    Yields rules point (tokens.map .ok ++ (Scan.all rules point).2.item?.toList)
      (Scan.all rules point).2.point := by
  induction point using Scan.all.induct rules generalizing tokens with
  | case1 point finding hnext findings ending hall ih =>
    rw [Scan.all_eq, hnext] at h ⊢
    cases h with
    | cons hmakes htokens => exact .found hnext hmakes (ih htokens)
  | case2 point ending hnext =>
    rw [Scan.all_eq, hnext] at h ⊢
    cases h with
    | nil =>
      rw [List.map_nil, List.nil_append, ← List.append_nil ending.item?.toList]
      exact .ended hnext (.nil _)

namespace Lexer

variable (table : SymbolTable σ η) (state : σ)

/-- Iterating to the end delivers all items that are left. -/
theorem delivers_of_rest (lexer : Lexer) :
    lexer.Delivers ((lexer.rest table).run state).1.1 ((lexer.rest table).run state).1.2 := by
  cases hfinished : lexer.finished with
  | true =>
    rw [run_rest_of_finished table state hfinished]
    exact .refl lexer
  | false =>
    obtain ⟨tokens, state', hrun, htokens⟩ := exists_run_rest table state lexer hfinished
    rw [hrun]
    exact ⟨rfl, rfl, yields_all htokens⟩

/-! ## Any calls -/

/-- Every call delivers its answer. -/
theorem delivers_of_answer (lexer : Lexer) (call : Call) :
    lexer.Delivers ((lexer.answer table call).run state).1.1
      ((lexer.answer table call).run state).1.2 := by
  cases call with
  | nextToken => exact delivers_of_nextToken table state lexer
  | next => exact delivers_of_next table state lexer
  | rest => exact delivers_of_rest table state lexer

/-- **Any calls deliver their answers in a row.** -/
theorem delivers_of_answers (lexer : Lexer) (calls : List Call) :
    lexer.Delivers ((lexer.answers table calls).run state).1.1.flatten
      ((lexer.answers table calls).run state).1.2 := by
  induction calls generalizing lexer state with
  | nil => exact .refl lexer
  | cons call calls ih =>
    have hhead := delivers_of_answer table state lexer call
    exact hhead.append (ih ((lexer.answer table call).run state).2 _)

end Lexer

end MiniPascal
