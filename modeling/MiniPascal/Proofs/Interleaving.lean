import MiniPascal.Proofs.Course

/-!
# Calls in any order

Tokens can be pulled off a lexer, which may go on after a failure, and a lexer can be iterated,
where the first error or the end is final. On one lexer the two ways may be mixed. Main statement:
however they are mixed, every call delivers what comes next on one and the same course of the source
(`Lexer.exists_course_of_answers`).
-/

namespace MiniPascal

variable {σ η : Type}

/-! ## Histories -/

/-- A call, and the items that it has delivered. -/
abbrev Turn := Call × List Item

namespace Turn

/-- The tokens that a turn delivers. -/
def tokens (turn : Turn) : List Token :=
  turn.2.filterMap Item.token?

/-- The errors that a turn delivers as a part of the iteration. -/
def iteratedErrors : Turn → List Error
  | (.nextToken, _) => []
  | (_, items) => items.filterMap Item.error?

/-- Whether the iteration is over with a turn: it has given an error or the end, or all that was
left. -/
def endsIteration : Turn → Bool
  | (.nextToken, _) => false
  | (.next, [.ok _]) => false
  | (_, _) => true

/-- The tokens of a history are those among all items that it has delivered. -/
theorem flatMap_tokens_zip {calls : List Call} {answers : List (List Item)}
    (h : answers.length = calls.length) :
    (calls.zip answers).flatMap tokens = answers.flatten.filterMap Item.token? := by
  have hanswers : (calls.zip answers).map Prod.snd = answers := List.map_snd_zip h.le
  calc (calls.zip answers).flatMap tokens
      = (((calls.zip answers).map Prod.snd).map (List.filterMap Item.token?)).flatten := by
        rw [List.flatMap_def, List.map_map]
        rfl
    _ = answers.flatten.filterMap Item.token? := by rw [hanswers, List.filterMap_flatten]

/-- Once all tokens have been delivered, no further one is. -/
theorem flatMap_tokens_append {history further : List Turn} {tokens : List Token}
    (hbegin : (history ++ further).flatMap Turn.tokens <+: tokens)
    (hall : history.flatMap Turn.tokens = tokens) :
    (history ++ further).flatMap Turn.tokens = tokens := by
  refine hbegin.eq_of_length_le ?_
  rw [← hall, List.flatMap_append, List.length_append]
  exact Nat.le_add_right _ _

/-- A turn with which the iteration is not over has no error of it. -/
theorem iteratedErrors_eq_nil {turn : Turn} (h : turn.endsIteration = false) :
    turn.iteratedErrors = [] := by
  unfold endsIteration at h
  split at h
  · rfl
  · rfl
  · cases h

end Turn

namespace Course

/-- What a call delivers where a course lies ahead and the iteration is over or not. -/
def answer (course : Course) (ended : Bool) : Call → List Item
  | .nextToken => course.items.take 1
  | .next => if ended then [] else course.items.take 1
  | .rest => if ended then [] else course.items

/-- The errors among the items of a course are its error, if it has one. -/
theorem filterMap_error?_items (course : Course) :
    course.items.filterMap Item.error? = course.error?.toList := by
  obtain ⟨tokens, error?⟩ := course
  rw [items, List.filterMap_append, List.filterMap_map,
    show Item.error? ∘ Except.ok = fun _ : Token => none from rfl, List.filterMap_none]
  cases error? <;> rfl

/-- The items of a course tell its tokens and its error. -/
theorem eq_of_items_eq {course other : Course} (h : course.items = other.items) :
    course = other := by
  have htokens := congrArg (List.filterMap Item.token?) h
  have herrors := congrArg (fun items => (items.filterMap Item.error?).head?) h
  rw [filterMap_token?_items, filterMap_token?_items] at htokens
  rw [filterMap_error?_items, filterMap_error?_items, Option.head?_toList,
    Option.head?_toList] at herrors
  rw [Course.mk.injEq]
  exact ⟨htokens, herrors⟩

/-- The items in what is pulled first on a course are its first item. -/
theorem pulledItems_pull (course : Course) : pulledItems course.pull = course.items.take 1 := by
  obtain ⟨tokens, error?⟩ := course
  cases tokens <;> cases error? <;> rfl

/-- The first item is a token as long as there are any. -/
theorem drop_length_take (course : Course) :
    course.drop ((course.items.take 1).filterMap Item.token?).length = course.drop 1 := by
  obtain ⟨tokens, error?⟩ := course
  cases tokens <;> cases error? <;> rfl

/-- Every call delivers the first ones of the items that are left. -/
theorem answer_prefix_items (course : Course) (ended : Bool) (call : Call) :
    course.answer ended call <+: course.items := by
  cases call with
  | nextToken => exact List.take_prefix 1 _
  | next => cases ended <;> simp [answer, List.take_prefix]
  | rest => cases ended <;> simp [answer]

/-- What is left behind two numbers of tokens is left behind their sum. -/
theorem drop_drop (course : Course) (first second : Nat) :
    (course.drop first).drop second = course.drop (first + second) := by
  simp [drop, List.drop_drop]

/-- Behind its first tokens, a course has the other ones. -/
theorem tokens_eq_append_of_prefix {course : Course} {tokens : List Token}
    (h : tokens <+: course.tokens) :
    course.tokens = tokens ++ (course.drop tokens.length).tokens := by
  obtain ⟨others, hothers⟩ := h
  rw [drop, ← hothers, List.drop_left]

/-- Behind its first tokens, a course has the items that are left. -/
theorem items_eq_append_of_prefix {course : Course} {tokens : List Token}
    (h : tokens <+: course.tokens) :
    course.items = tokens.map .ok ++ (course.drop tokens.length).items := by
  rw [items, tokens_eq_append_of_prefix h, List.map_append, List.append_assoc]
  rfl

/-- As a part of the iteration a call gives at most the error of the course, and nothing if the
iteration is over. -/
theorem iteratedErrors_answer_prefix (course : Course) (ended : Bool) (call : Call) :
    Turn.iteratedErrors (call, course.answer ended call) <+:
      if ended then [] else course.error?.toList := by
  have herrors : ∀ {items : List Item}, items <+: course.items →
      items.filterMap Item.error? <+: course.error?.toList := by
    intro items hitems
    rw [← course.filterMap_error?_items]
    exact hitems.filterMap _
  cases call with
  | nextToken => exact List.nil_prefix
  | next =>
    cases ended with
    | true => exact List.nil_prefix
    | false => exact herrors (List.take_prefix 1 _)
  | rest =>
    cases ended with
    | true => exact List.nil_prefix
    | false => exact herrors List.prefix_rfl

/-- At most the error of a course is given, if none is before the iteration is over and none by a
further call once it is. -/
theorem errors_append_prefix {course : Course} {ended : Bool} {errors others : List Error}
    (herrors : errors <+: course.error?.toList) (hnil : ended = false → errors = [])
    (hothers : others <+: if ended then [] else course.error?.toList) :
    errors ++ others <+: course.error?.toList := by
  cases ended with
  | true =>
    rw [if_pos rfl, List.prefix_nil] at hothers
    rw [hothers, List.append_nil]
    exact herrors
  | false =>
    rw [if_neg Bool.false_ne_true] at hothers
    rw [hnil rfl, List.nil_append]
    exact hothers

/-- The iteration is over only with a call behind which no token is left. -/
theorem tokens_answer_of_endsIteration {course : Course} {call : Call}
    (h : Turn.endsIteration (call, course.answer false call) = true) :
    Turn.tokens (call, course.answer false call) = course.tokens := by
  cases call with
  | nextToken => cases h
  | next =>
    obtain ⟨tokens, error?⟩ := course
    cases tokens with
    | nil => cases error? <;> rfl
    | cons token tokens => cases h
  | rest => exact course.filterMap_token?_items

/-- The first item is an error only where no token is left. -/
theorem tokens_eq_nil_of_mem_take {course : Course} {error : Error}
    (h : .error error ∈ course.items.take 1) : course.tokens = [] := by
  obtain ⟨tokens, error?⟩ := course
  cases tokens with
  | nil => rfl
  | cons token tokens =>
    cases List.mem_singleton.1 h

end Course

/-! ## One call -/

namespace Ahead

variable {table : SymbolTable σ η} {rules : List Rule} {point stop : Point} {state last : σ}
  {course : Course}

/-- A call that goes to the end of the scan, if no token lies ahead, does not leave this end. -/
theorem eq_of_endsAt (h : Ahead table rules point state course last)
    (hstop : course.tokens = [] → point.EndsAt rules stop) (hself : point.EndsAt rules point) :
    stop = point :=
  (hstop (h.tokens_eq_nil hself)).unique hself

/-- After a call that goes to the end of the scan, if no token lies ahead, and gives an error, this
end is reached. -/
theorem endsAt_of_mem_take (hstop : course.tokens = [] → point.EndsAt rules stop)
    (herror : ∃ error, .error error ∈ course.items.take 1) : stop.EndsAt rules stop := by
  obtain ⟨error, hmem⟩ := herror
  exact (hstop (Course.tokens_eq_nil_of_mem_take hmem)).self

end Ahead

namespace Lexer

variable {table : SymbolTable σ η} {state last : σ} {lexer : Lexer} {course : Course}

/-- **A call delivers what comes next on the course ahead**, or nothing if it asks for items of an
iteration that is over. What it has not delivered lies ahead afterwards. -/
theorem exists_run_answer (h : Ahead table lexer.rules lexer.point state course last)
    (call : Call) :
    ∃ point state', (lexer.answer table call).run state =
        ((course.answer lexer.finished call,
          { lexer with
            point := point
            finished := lexer.finished ||
              Turn.endsIteration (call, course.answer lexer.finished call) }), state') ∧
      Ahead table lexer.rules point state'
        (course.drop (Turn.tokens (call, course.answer lexer.finished call)).length) last ∧
      (lexer.point.EndsAt lexer.rules lexer.point → point = lexer.point) ∧
      ((∃ error, .error error ∈ course.answer lexer.finished call) →
        point.EndsAt lexer.rules point) := by
  cases call with
  | nextToken =>
    obtain ⟨point, state', hrun, hahead, hends⟩ := exists_run_nextToken h
    refine ⟨point, state', ?_, ?_, h.eq_of_endsAt hends, Ahead.endsAt_of_mem_take hends⟩
    · rw [answer, StateT.run_bind, hrun, Course.answer, ← course.pulledItems_pull,
        Turn.endsIteration,
        Bool.or_false]
      rfl
    · rw [Turn.tokens, Course.answer, course.drop_length_take]
      exact hahead
  | next =>
    obtain ⟨source, rules, start, finished⟩ := lexer
    cases finished with
    | true =>
      refine ⟨start, state, rfl, h, fun _ => rfl, ?_⟩
      rintro ⟨error, hmem⟩
      cases hmem
    | false =>
      obtain ⟨point, state', hrun, hahead, hends⟩ := exists_run_next h rfl
      refine ⟨point, state', ?_, ?_, h.eq_of_endsAt hends, Ahead.endsAt_of_mem_take hends⟩
      · rw [answer, StateT.run_bind, hrun]
        obtain ⟨tokens, error?⟩ := course
        cases tokens <;> cases error? <;> rfl
      · rw [Turn.tokens, Course.answer, if_neg Bool.false_ne_true, course.drop_length_take]
        exact hahead
  | rest =>
    obtain ⟨source, rules, start, finished⟩ := lexer
    cases finished with
    | true =>
      refine ⟨start, state, rfl, h, fun _ => rfl, ?_⟩
      rintro ⟨error, hmem⟩
      cases hmem
    | false =>
      obtain ⟨point, hrun, hahead, hself, hends⟩ := exists_run_rest_of_ahead _ h rfl
      refine ⟨point, last, ?_, ?_, h.eq_of_endsAt hends, fun _ => hself⟩
      · rw [answer, hrun]
        rfl
      · rw [Turn.tokens, Course.answer, if_neg Bool.false_ne_true, course.filterMap_token?_items]
        exact hahead

end Lexer

/-! ## Histories and courses -/

/-- A history has followed a course up to a lexer and a state of the symbol table: it has delivered
the first tokens of the course and, as a part of the iteration, at most its error; the rest of the
course lies ahead. -/
structure Follows (table : SymbolTable σ η) (course : Course) (last : σ) (history : List Turn)
    (lexer : Lexer) (state : σ) : Prop where
  isPrefix : history.flatMap Turn.tokens <+: course.tokens
  ahead : Ahead table lexer.rules lexer.point state
    (course.drop (history.flatMap Turn.tokens).length) last
  finished_eq : lexer.finished = history.any Turn.endsIteration
  tokens_eq : lexer.finished = true → history.flatMap Turn.tokens = course.tokens
  errors_prefix : history.flatMap Turn.iteratedErrors <+: course.error?.toList
  errors_eq_nil : lexer.finished = false → history.flatMap Turn.iteratedErrors = []
  endsAt : ∀ error, .error error ∈ history.flatMap Prod.snd →
    lexer.point.EndsAt lexer.rules lexer.point

namespace Follows

variable {table : SymbolTable σ η} {course : Course} {last state : σ} {history : List Turn}
  {lexer : Lexer}

/-- Before any call, a lexer follows the course that lies ahead. -/
theorem start (lexer : Lexer) (h : Ahead table lexer.rules lexer.point state course last)
    (hfinished : lexer.finished = false) : Follows table course last [] lexer state where
  isPrefix := List.nil_prefix
  ahead := h
  finished_eq := hfinished
  tokens_eq := fun hover => by rw [hfinished] at hover; cases hover
  errors_prefix := List.nil_prefix
  errors_eq_nil := fun _ => rfl
  endsAt := fun _ hmem => by cases hmem

/-- **Every call goes on with the course.** -/
theorem run_answer (h : Follows table course last history lexer state) (call : Call) :
    Follows table course last (history ++ [(call, ((lexer.answer table call).run state).1.1)])
      ((lexer.answer table call).run state).1.2 ((lexer.answer table call).run state).2 := by
  obtain ⟨point, state', hrun, hahead, hstays, hends⟩ := Lexer.exists_run_answer h.ahead call
  rw [hrun]
  have htokens := Course.tokens_eq_append_of_prefix h.isPrefix
  -- the course that is left before the call
  generalize hleft : course.drop (history.flatMap Turn.tokens).length = left at *
  have herror : left.error? = course.error? := by
    rw [← hleft]
    rfl
  have herrors := left.iteratedErrors_answer_prefix lexer.finished call
  have hbegin : (history ++ [(call, left.answer lexer.finished call)]).flatMap Turn.tokens <+:
      course.tokens := by
    have hnew := (left.answer_prefix_items lexer.finished call).filterMap Item.token?
    rw [left.filterMap_token?_items] at hnew
    rw [List.flatMap_append, List.flatMap_singleton, htokens]
    exact (List.prefix_append_right_inj _).2 hnew
  refine ⟨hbegin, ?_, ?_, ?_, ?_, ?_, ?_⟩
  · rw [List.flatMap_append, List.flatMap_singleton, List.length_append, ← course.drop_drop, hleft]
    exact hahead
  · rw [List.any_append, ← h.finished_eq, List.any_cons, List.any_nil, Bool.or_false]
  · intro hover
    cases hfinished : lexer.finished with
    | true =>
      rw [hfinished] at hbegin
      exact Turn.flatMap_tokens_append hbegin (h.tokens_eq hfinished)
    | false =>
      rw [hfinished, Bool.false_or] at hover
      rw [List.flatMap_append, List.flatMap_singleton, htokens,
        Course.tokens_answer_of_endsIteration hover]
  · rw [List.flatMap_append, List.flatMap_singleton]
    exact Course.errors_append_prefix h.errors_prefix h.errors_eq_nil (herror ▸ herrors)
  · intro hfinished
    obtain ⟨hbefore, hturn⟩ := Bool.or_eq_false_iff.1 hfinished
    rw [List.flatMap_append, List.flatMap_singleton, h.errors_eq_nil hbefore, List.nil_append]
    exact Turn.iteratedErrors_eq_nil hturn
  · intro error hmem
    rw [List.flatMap_append, List.flatMap_singleton] at hmem
    rcases List.mem_append.1 hmem with hmem | hmem
    · have hself := h.endsAt error hmem
      show Point.EndsAt lexer.rules point point
      rw [hstays hself]
      exact hself
    · exact hends ⟨error, hmem⟩

/-- Any calls go on with the course. -/
theorem run_answers (h : Follows table course last history lexer state) (calls : List Call) :
    Follows table course last
      (history ++ calls.zip ((lexer.answers table calls).run state).1.1)
      ((lexer.answers table calls).run state).1.2 ((lexer.answers table calls).run state).2 := by
  induction calls generalizing history lexer state with
  | nil =>
    rw [List.zip_nil_left, List.append_nil]
    exact h
  | cons call calls ih =>
    have hcall := ih (h.run_answer call)
    rw [List.append_assoc] at hcall
    exact hcall

end Follows

namespace Lexer

/-- Every call is answered. -/
theorem length_answers (table : SymbolTable σ η) (state : σ) (lexer : Lexer) (calls : List Call) :
    ((lexer.answers table calls).run state).1.1.length = calls.length := by
  induction calls generalizing lexer state with
  | nil => rfl
  | cons call calls ih => exact congrArg (· + 1) (ih _ _)

/-- The next token is what comes next on the course that has been followed. -/
theorem nextToken_of_follows {history : List Turn}
    (h : Follows table course last history lexer state) :
    ((lexer.nextToken table).run state).1.1 =
      (course.drop (history.flatMap Turn.tokens).length).pull := by
  obtain ⟨point, state', hrun, -⟩ := exists_run_nextToken h.ahead
  rw [hrun]

/-- The iteration goes on with what comes next on the course that has been followed, if it is not
over. -/
theorem next_of_follows {history : List Turn} (h : Follows table course last history lexer state) :
    ((lexer.next table).run state).1.1 = if history.any Turn.endsIteration then none
      else (course.drop (history.flatMap Turn.tokens).length).items.head? := by
  rw [← h.finished_eq]
  cases hfinished : lexer.finished with
  | true => rw [run_next_of_finished table state hfinished, if_pos rfl]
  | false =>
    obtain ⟨point, state', hrun, -⟩ := exists_run_next h.ahead hfinished
    rw [hrun, if_neg Bool.false_ne_true]

/-- The items that are left are those of the course that has been followed, if the iteration is not
over. -/
theorem rest_of_follows {history : List Turn} (h : Follows table course last history lexer state) :
    ((lexer.rest table).run state).1.1 = if history.any Turn.endsIteration then []
      else (course.drop (history.flatMap Turn.tokens).length).items := by
  rw [← h.finished_eq]
  cases hfinished : lexer.finished with
  | true => rw [run_rest_of_finished table state hfinished, if_pos rfl]
  | false =>
    obtain ⟨point, hrun, -⟩ := exists_run_rest_of_ahead lexer h.ahead hfinished
    rw [hrun, if_neg Bool.false_ne_true]

/-- Where only the error of a course is left, the next pull goes to it, and does not move once the
error has been given. -/
theorem cursor_of_follows {history : List Turn} (h : Follows table course last history lexer state)
    (hall : history.flatMap Turn.tokens = course.tokens) {error : Error}
    (herror : course.error? = some error) :
    ((lexer.nextToken table).run state).1.2.cursor.offset = error.position.offset ∧
      ((lexer.nextToken table).run state).1.2.cursor.line = error.position.line ∧
      (.error error ∈ history.flatMap Prod.snd →
        ((lexer.nextToken table).run state).1.2 = lexer) := by
  obtain ⟨stop, state', hrun, -, hends⟩ := exists_run_nextToken h.ahead
  rw [hrun]
  have hstop : lexer.point.EndsAt lexer.rules stop := by
    apply hends
    rw [hall, Course.drop, List.drop_length]
  have hposition := h.ahead.position_eq hstop herror
  refine ⟨?_, ?_, ?_⟩
  · rw [hposition]
    rfl
  · rw [hposition]
    rfl
  · intro hmem
    rw [hstop.unique (h.endsAt error hmem)]

/-- **However calls are mixed, they go through one course.** The items of a source are a course of
tokens and at most one error, and so is its outcome. Whatever has been called, the tokens that have
been delivered are the first ones of the course, and the iteration has given its error at most once.
The next token is what comes next on the course: a token until all have been delivered, and from
then on, whatever else is called, the error or the end. The iteration gives the items that come
next, and nothing once it is over, which it is only when all tokens have been delivered. Where only
the error is left, the cursor goes to it, and it stays there once the error has been given. -/
theorem exists_course_of_answers (table : SymbolTable σ η) (state : σ) (source : String) :
    ∃ course : Course,
      ((items table source).run state).1 = course.items ∧
      ((tokenize table source).run state).1 = course.outcome ∧
      ∀ calls : List Call,
        let ((answers, lexer), state') := ((Lexer.start source).answers table calls).run state
        let history := calls.zip answers
        let delivered := answers.flatten.filterMap Item.token?
        let left := course.drop delivered.length
        let ((pulled, lexer'), _) := (lexer.nextToken table).run state'
        answers.length = calls.length ∧
        delivered <+: course.tokens ∧
        history.flatMap Turn.iteratedErrors <+: course.error?.toList ∧
        pulled = left.pull ∧
        ((lexer.next table).run state').1.1 =
          (if history.any Turn.endsIteration then none else left.items.head?) ∧
        ((lexer.rest table).run state').1.1 =
          (if history.any Turn.endsIteration then [] else left.items) ∧
        (history.any Turn.endsIteration = true → delivered = course.tokens) ∧
        (delivered = course.tokens → ∀ further : List Call,
          let ((_, lexer''), state'') := (lexer.answers table further).run state'
          ((lexer''.nextToken table).run state'').1.1 = pulled) ∧
        ∀ error, course.error? = some error → delivered = course.tokens →
          lexer'.cursor.offset = error.position.offset ∧
          lexer'.cursor.line = error.position.line ∧
          (.error error ∈ answers.flatten → lexer' = lexer) := by
  obtain ⟨course, last, hcourse⟩ := exists_ahead table Rule.all (Point.start source.toList) state
  obtain ⟨hitems, htokenize⟩ := run_items_of_ahead hcourse
  refine ⟨course, by rw [hitems], by rw [htokenize], ?_⟩
  intro calls
  have hlength := length_answers table state (Lexer.start source) calls
  have hfollows := (Follows.start (Lexer.start source) hcourse rfl).run_answers calls
  have hdelivered := Turn.flatMap_tokens_zip hlength
  have hanswers := List.map_snd_zip hlength.le
  rw [List.nil_append] at hfollows
  generalize ((Lexer.start source).answers table calls).run state = run at *
  obtain ⟨⟨answers, lexer⟩, state'⟩ := run
  have hpull := nextToken_of_follows hfollows
  rw [hdelivered] at hpull
  refine ⟨hlength, hdelivered ▸ hfollows.isPrefix, hfollows.errors_prefix, hpull,
    hdelivered ▸ next_of_follows hfollows, hdelivered ▸ rest_of_follows hfollows, ?_, ?_, ?_⟩
  · intro hover
    rw [← hdelivered]
    exact hfollows.tokens_eq (hfollows.finished_eq.trans hover)
  · intro hall further
    have hfurther := hfollows.run_answers further
    have hall' := Turn.flatMap_tokens_append hfurther.isPrefix (hdelivered.trans hall)
    rw [hall] at hpull
    exact (nextToken_of_follows hfurther).trans (hall' ▸ hpull.symm)
  · intro error herror hall
    obtain ⟨hoffset, hline, hstays⟩ := cursor_of_follows hfollows (hdelivered.trans hall) herror
    refine ⟨hoffset, hline, ?_⟩
    intro hmem
    apply hstays
    rwa [List.flatMap_def, hanswers]

/-- Behind the last token of a source the cursor does not stand where the source fails: the pull
that gives the error moves it there, here to the next line. -/
theorem exists_cursor_ne_of_nextToken_error :
    ∃ (x : Token) (error : Error) (lexer lexer' : Lexer),
      VariableTable.empty.items "x\n@" = [.ok x, .error error] ∧
      ((Lexer.start "x\n@").nextToken VariableTable.symbols).run .empty =
        ((.ok (some x), lexer), .empty) ∧
      (lexer.nextToken VariableTable.symbols).run .empty = ((.error error, lexer'), .empty) ∧
      lexer.cursor = ⟨"x\n@", 1, 1⟩ ∧ lexer'.cursor = ⟨"x\n@", 2, 2⟩ := by
  refine ⟨⟨.identifier, .identifier (.placeholder "x"), ⟨1, 0⟩⟩, .illegalCharacter '@' ⟨2, 2⟩,
    ⟨"x\n@", Rule.all, ⟨['\n', '@'], ⟨1, 1⟩⟩, false⟩, ⟨"x\n@", Rule.all, ⟨['@'], ⟨2, 2⟩⟩, false⟩,
    by decide +kernel, ?_, ?_, rfl, rfl⟩
  · show @Eq ((Except Error (Option Token) × Lexer) × VariableTable) _ _
    decide +kernel
  · show @Eq ((Except Error (Option Token) × Lexer) × VariableTable) _ _
    decide +kernel

end Lexer

end MiniPascal
