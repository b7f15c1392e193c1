import MiniPascal.Proofs.Calls

/-!
# The course of an iteration

An iteration over a source delivers tokens and, where the source is at fault, one error behind them:
this is its course. Which course lies ahead of a point is settled by the point and by the state of
the symbol table there (`Ahead`), and each step of a scan takes one token off it. Main statement:
iterating to the end delivers the course that lies ahead (`Lexer.exists_run_rest_of_ahead`).
-/

namespace MiniPascal

variable {σ η : Type}

/-! ## Courses -/

/-- What an iteration delivers: its tokens, and the error that ends it, if there is one. -/
structure Course where
  tokens : List Token
  error? : Option Error

namespace Course

/-- The items of a course, the error being the last one. -/
def items (course : Course) : List Item :=
  course.tokens.map .ok ++ (course.error?.map .error).toList

/-- What comes of a source with a given course: all tokens, or the error. -/
def outcome (course : Course) : Except Error (List Token) :=
  match course.error? with
  | none => .ok course.tokens
  | some error => .error error

/-- What is pulled first where a course begins: its first token, or else its error or the end. -/
def pull (course : Course) : Except Error (Option Token) :=
  match course.tokens, course.error? with
  | token :: _, _ => .ok (some token)
  | [], some error => .error error
  | [], none => .ok none

/-- What is left of a course behind a number of tokens. -/
def drop (course : Course) (count : Nat) : Course :=
  ⟨course.tokens.drop count, course.error?⟩

/-- Collecting the items of a course gives what comes of it. -/
theorem collect_items (course : Course) : collect course.items = course.outcome := by
  obtain ⟨tokens, error?⟩ := course
  induction tokens with
  | nil => cases error? <;> rfl
  | cons token tokens ih =>
    show (collect (items ⟨tokens, error?⟩)).map (token :: ·) = _
    rw [ih]
    cases error? <;> rfl

/-- The tokens among the items of a course are its tokens. -/
theorem filterMap_token?_items (course : Course) :
    course.items.filterMap Item.token? = course.tokens := by
  obtain ⟨tokens, error?⟩ := course
  rw [items, List.filterMap_append, List.filterMap_map,
    show Item.token? ∘ Except.ok = some from rfl, List.filterMap_some]
  cases error? <;> exact List.append_nil tokens

end Course

/-! ## The course ahead -/

/-- The error of an ending, if the scan has failed. -/
def Ending.error? : Ending → Option Error
  | .finish _ => none
  | .failure _ character point => some (.illegalCharacter character point.position)

/-- Tokens, and behind them the item of an ending, are the items of a course. -/
theorem Course.items_eq_append (tokens : List Token) (ending : Ending) :
    (Course.mk tokens ending.error?).items = tokens.map .ok ++ ending.item?.toList := by
  cases ending <;> rfl

/-- A course lies ahead of a point and a state of the symbol table: the steps of a scan from there
deliver its tokens and then end with its error, if it has one. The last index is the state in which
they leave the table. -/
inductive Ahead (table : SymbolTable σ η) (rules : List Rule) :
    Point → σ → Course → σ → Prop where
  | ended {point : Point} {state : σ} {ending : Ending}
      (hnext : Scan.next rules point = .ended ending) :
      Ahead table rules point state ⟨[], ending.error?⟩ state
  | found {point : Point} {state state' last : σ} {finding : Finding} {lookup : Option Lookup}
      {token : Token} {tokens : List Token} {error? : Option Error}
      (hnext : Scan.next rules point = .found finding)
      (hpull : (finding.pull table).run state = (.token finding.rule lookup token, state'))
      (htail : Ahead table rules finding.next state' ⟨tokens, error?⟩ last) :
      Ahead table rules point state ⟨token :: tokens, error?⟩ last

/-- Some course lies ahead of every point and every state of the symbol table. -/
theorem exists_ahead (table : SymbolTable σ η) (rules : List Rule) (point : Point) (state : σ) :
    ∃ course last, Ahead table rules point state course last := by
  induction point using Scan.all.induct rules generalizing state with
  | case1 point finding hnext findings ending hall ih =>
    obtain ⟨lookup, token, state', hpull, -⟩ := finding.exists_run_pull table state
    obtain ⟨⟨tokens, error?⟩, last, htail⟩ := ih state'
    exact ⟨⟨token :: tokens, error?⟩, last, .found hnext hpull htail⟩
  | case2 point ending hnext => exact ⟨⟨[], ending.error?⟩, state, .ended hnext⟩

/-! ## Where a scan ends -/

/-- The next step from a point ends the scan, at another point or at the same one. -/
def Point.EndsAt (rules : List Rule) (point stop : Point) : Prop :=
  ∃ ending, Scan.next rules point = .ended ending ∧ ending.point = stop

namespace Point.EndsAt

variable {rules : List Rule} {point stop stop' : Point}

/-- A scan ends again where it has ended. -/
theorem self (h : point.EndsAt rules stop) : stop.EndsAt rules stop := by
  obtain ⟨ending, hnext, rfl⟩ := h
  exact ⟨ending, Scan.next_point_of_ended hnext, rfl⟩

/-- A scan ends at one point only. -/
theorem unique (h : point.EndsAt rules stop) (h' : point.EndsAt rules stop') : stop = stop' := by
  obtain ⟨ending, hnext, rfl⟩ := h
  obtain ⟨ending', hnext', rfl⟩ := h'
  rw [hnext, Scan.ended.injEq] at hnext'
  rw [hnext']

end Point.EndsAt

namespace Ahead

variable {table : SymbolTable σ η} {rules : List Rule} {point stop : Point} {state last : σ}
  {course : Course}

/-- Where a scan ends no token lies ahead. -/
theorem tokens_eq_nil (h : Ahead table rules point state course last)
    (hstop : point.EndsAt rules stop) : course.tokens = [] := by
  obtain ⟨ending, hending, -⟩ := hstop
  cases h with
  | ended => rfl
  | found hnext =>
    rw [hending] at hnext
    cases hnext

/-- An error that lies right ahead is the one of the point where the scan ends. -/
theorem position_eq (h : Ahead table rules point state course last)
    (hstop : point.EndsAt rules stop) {error : Error} (herror : course.error? = some error) :
    error.position = stop.position := by
  obtain ⟨ending, hending, rfl⟩ := hstop
  cases h with
  | ended hnext =>
    rw [hending, Scan.ended.injEq] at hnext
    subst hnext
    cases ending with
    | finish stop => cases herror
    | failure cause c stop =>
      cases herror
      rfl
  | found hnext =>
    rw [hending] at hnext
    cases hnext

end Ahead

/-! ## Pulling -/

namespace Lexer

variable {table : SymbolTable σ η} {state last : σ} {lexer : Lexer} {course : Course}

/-- Pulling takes the first token off the course ahead. Where there is none, the lexer goes to the
point where the scan ends. -/
theorem exists_run_pull (h : Ahead table lexer.rules lexer.point state course last) :
    ∃ pull point state', (lexer.pull table).run state =
        ((pull, { lexer with point := point }), state') ∧
      pull.token? = course.pull ∧ Ahead table lexer.rules point state' (course.drop 1) last ∧
      (course.tokens = [] → lexer.point.EndsAt lexer.rules point) := by
  cases h with
  | @ended _ _ ending hnext =>
    refine ⟨ending.pull, ending.point, state, run_pull_of_ended table state hnext, ?_,
      .ended (Scan.next_point_of_ended hnext), fun _ => ⟨ending, hnext, rfl⟩⟩
    cases ending <;> rfl
  | @found _ _ state' _ finding lookup token tokens error? hnext hpull htail =>
    refine ⟨_, finding.next, state', run_pull_of_found table state hnext hpull, rfl, htail, ?_⟩
    intro hnil
    cases hnil

/-! ## Calls -/

/-- The next token is what is pulled first on the course ahead. -/
theorem exists_run_nextToken (h : Ahead table lexer.rules lexer.point state course last) :
    ∃ point state', (lexer.nextToken table).run state =
        ((course.pull, { lexer with point := point }), state') ∧
      Ahead table lexer.rules point state' (course.drop 1) last ∧
      (course.tokens = [] → lexer.point.EndsAt lexer.rules point) := by
  obtain ⟨pull, point, state', hrun, hpull, hahead, hends⟩ := exists_run_pull h
  refine ⟨point, state', ?_, hahead, hends⟩
  unfold nextToken
  rw [StateT.run_bind, hrun, ← hpull]
  rfl

/-- The next item of an iteration is the first one of the course ahead. The iteration goes on behind
a token. -/
theorem exists_run_next (h : Ahead table lexer.rules lexer.point state course last)
    (hfinished : lexer.finished = false) :
    ∃ point state', (lexer.next table).run state =
        ((course.items.head?, { lexer with point := point, finished := course.tokens.isEmpty }),
          state') ∧
      Ahead table lexer.rules point state' (course.drop 1) last ∧
      (course.tokens = [] → lexer.point.EndsAt lexer.rules point) := by
  obtain ⟨pull, point, state', hrun, hpull, hahead, hends⟩ := exists_run_pull h
  refine ⟨point, state', ?_, hahead, hends⟩
  unfold next
  rw [if_neg (by rw [hfinished]; exact Bool.false_ne_true), StateT.run_bind, hrun]
  obtain ⟨source, rules, start, finished⟩ := lexer
  obtain rfl : finished = false := hfinished
  -- what is pulled tells whether the course has a token, an error or neither
  obtain ⟨tokens, error?⟩ := course
  cases tokens with
  | cons token tokens =>
    cases pull <;> cases hpull
    rfl
  | nil =>
    cases error? with
    | none =>
      cases pull <;> cases hpull
      rfl
    | some error =>
      cases pull <;> cases hpull
      rfl

/-- **Iterating to the end delivers the course ahead**, and the lexer goes to the point where the
scan ends. -/
theorem exists_run_rest_of_ahead (lexer : Lexer)
    (h : Ahead table lexer.rules lexer.point state course last)
    (hfinished : lexer.finished = false) :
    ∃ point, (lexer.rest table).run state =
        ((course.items, { lexer with point := point, finished := true }), last) ∧
      Ahead table lexer.rules point last (course.drop course.tokens.length) last ∧
      point.EndsAt lexer.rules point ∧
      (course.tokens = [] → lexer.point.EndsAt lexer.rules point) := by
  obtain ⟨source, rules, point, finished⟩ := lexer
  obtain rfl : finished = false := hfinished
  dsimp only at h ⊢
  induction h with
  | @ended point state ending hnext =>
    refine ⟨ending.point, ?_, .ended (Scan.next_point_of_ended hnext),
      ⟨ending, Scan.next_point_of_ended hnext, rfl⟩, fun _ => ⟨ending, hnext, rfl⟩⟩
    rw [rest_eq_next, StateT.run_bind, run_next_of_ended table state rfl hnext]
    cases ending <;> rfl
  | @found point state state' last finding lookup token tokens error? hnext hpull htail ih =>
    obtain ⟨stop, hrest, hahead, hstop, -⟩ := ih
    refine ⟨stop, ?_, hahead, hstop, fun hnil => by cases hnil⟩
    have hrun : ((Lexer.mk source rules point false).next table).run state =
        ((some (.ok token), Lexer.mk source rules finding.next false), state') :=
      run_next_of_found table state rfl hnext hpull
    rw [rest_eq_next, StateT.run_bind, hrun]
    show (Lexer.rest table _ >>= _).run state' = _
    rw [StateT.run_bind, hrest]
    rfl

end Lexer

/-! ## The course of a source -/

/-- A source has the items and the outcome of the course that lies ahead of its start. -/
theorem run_items_of_ahead {table : SymbolTable σ η} {source : String} {state last : σ}
    {course : Course}
    (h : Ahead table Rule.all (Point.start source.toList) state course last) :
    (items table source).run state = (course.items, last) ∧
      (tokenize table source).run state = (course.outcome, last) := by
  obtain ⟨point, hrest, -⟩ := Lexer.exists_run_rest_of_ahead (Lexer.start source) h rfl
  have hitems : (items table source).run state = (course.items, last) := by
    unfold items
    rw [StateT.run_bind, hrest]
    rfl
  refine ⟨hitems, ?_⟩
  unfold tokenize
  rw [StateT.run_bind, hitems, ← course.collect_items]
  rfl

/-- Against a table of variables, the items of a source are those of the course of its findings and
of the ending of its scan. -/
theorem VariableTable.items_eq_course (table : VariableTable) (source : String) :
    table.items source =
      (Course.mk ((Scan.all Rule.all (Point.start source.toList)).1.map (Finding.token table))
        (Scan.all Rule.all (Point.start source.toList)).2.error?).items := by
  rw [items_eq, itemsFrom, Course.items_eq_append, List.map_map]
  rfl

end MiniPascal
