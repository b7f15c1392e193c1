import MiniPascal.Proofs.Positions
import MiniPascal.Proofs.Tiling

/-!
# Steps never get stuck

A step of a scan goes over the source in rounds: each one looks at what is left, takes the first
lexeme there and reads it. Nothing that is done in a round can fail, and no round leaves the cursor
where it was unless the step is decided. Main statement: after any calls this holds at every point
to which the next step comes, and the step is decided after at most as many rounds as bytes are left
(`Lexer.proceeds_of_answers`).
-/

namespace MiniPascal

open Text

variable {σ η : Type}

/-! ## Bytes of strings -/

/-- Behind a beginning of a string there is a boundary between characters. -/
theorem Text.isValid_of_append_eq {source : String} {before rest : List Char}
    (h : before ++ rest = source.toList) :
    String.Pos.Raw.IsValid source ⟨byteLength before⟩ := by
  rw [String.Pos.Raw.isValid_iff_exists_append]
  refine ⟨String.ofList before, String.ofList rest, ?_, ?_⟩
  · rw [← String.ofList_append, h, String.ofList_toList]
  · rw [String.rawEndPos, utf8ByteSize_ofList]

/-- A character of one byte can be cut off by its byte. -/
theorem Text.dropBytes?_one {c : Char} (hc : c.utf8Size = 1) (rest : List Char) :
    dropBytes? 1 (c :: rest) = some rest := by
  have hdrop := dropBytes?_byteLength_append [c] rest
  rwa [byteLength_cons, hc, byteLength_nil] at hdrop

/-! ## Rounds -/

namespace Scan

/-- The outcome of a step that may take only so many rounds; there is none if they do not decide it.
At the end of the source no round is needed. -/
def nextWithin (rules : List Rule) : Nat → Point → Option Scan
  | 0, point => if point.rest = [] then some (.ended (.finish point)) else none
  | rounds + 1, point =>
    if point.rest = [] then some (.ended (.finish point))
    else match round rules point with
      | .decided scan => some scan
      | .goesOn later => nextWithin rules rounds later

/-- At the end of the source a step is finished. -/
theorem next_of_rest_eq_nil {rules : List Rule} {point : Point} (h : point.rest = []) :
    next rules point = .ended (.finish point) :=
  next_of_decides (.finish h)

/-- Where something is left, a step starts with a round. -/
theorem next_eq_round {rules : List Rule} {point : Point} (h : point.rest ≠ []) :
    next rules point = match round rules point with
      | .decided scan => scan
      | .goesOn later => next rules later := by
  rw [next]
  split
  · next hrest => exact absurd hrest h
  · split <;> next hround => rw [hround]

/-- A round passes over a lexeme that is not empty, unless it decides the step. -/
theorem decided_or_goesOn (rules : List Rule) (point : Point) :
    (∃ scan, round rules point = .decided scan) ∨
      ∃ lexeme, Lexeme.first? rules point.rest = some lexeme ∧ 0 < byteLength lexeme.text ∧
        round rules point = .goesOn (point.past lexeme) ∧
        (point.past lexeme).position.offset = point.position.offset + byteLength lexeme.text := by
  cases hround : round rules point with
  | decided scan => exact Or.inl ⟨scan, rfl⟩
  | goesOn later =>
    obtain ⟨lexeme, hfirst, -, rfl⟩ := exists_of_goesOn hround
    have hne := Rule.ne_nil_of_spells (Lexeme.spells_of_first? hfirst)
    exact Or.inr ⟨lexeme, hfirst, Nat.pos_of_ne_zero (byteLength_eq_zero_iff.not.2 hne), rfl, rfl⟩

/-- **A step is decided after at most as many rounds as bytes are left.** -/
theorem nextWithin_eq_some {rules : List Rule} {rounds : Nat} {point : Point}
    (h : byteLength point.rest ≤ rounds) :
    nextWithin rules rounds point = some (next rules point) := by
  induction rounds generalizing point with
  | zero =>
    have hrest : point.rest = [] := byteLength_eq_zero_iff.1 (Nat.le_zero.1 h)
    rw [nextWithin, if_pos hrest, next_of_rest_eq_nil hrest]
  | succ rounds ih =>
    rw [nextWithin]
    by_cases hrest : point.rest = []
    · rw [if_pos hrest, next_of_rest_eq_nil hrest]
    · rw [if_neg hrest, next_eq_round hrest]
      rcases decided_or_goesOn rules point with ⟨scan, hround⟩ | ⟨lexeme, hfirst, hpos, hround, -⟩
      · rw [hround]
      · rw [hround]
        refine ih ?_
        -- the bytes of the lexeme are no longer left
        have happend := congrArg byteLength (Lexeme.append_of_first? hfirst)
        rw [byteLength_append] at happend
        show byteLength lexeme.rest ≤ rounds
        omega

end Scan

/-! ## What is done in a round -/

/-- Digits on both sides of a point. -/
def Numeral.IsPointed (text : List Char) : Prop :=
  ∃ whole fraction, text = whole ++ '.' :: fraction ∧ whole ≠ [] ∧ fraction ≠ [] ∧
    (∀ c ∈ whole, c.isDigit = true) ∧ ∀ c ∈ fraction, c.isDigit = true

/-- A nearest double is found for all digits on both sides of a point. -/
theorem Binary64.isSome_ofPointed? {text : List Char} (h : Numeral.IsPointed text) :
    (ofPointed? text).isSome = true := by
  obtain ⟨whole, fraction, rfl, hwhole, hfraction, hwholeDigit, hfractionDigit⟩ := h
  rw [ofPointed?_append hwhole hfraction hwholeDigit hfractionDigit]
  rfl

namespace Rule

/-- The rules whose lexemes are read from behind their first byte. -/
def readsBehindFirst : Rule → Bool
  | .real | .integer | .char => true
  | _ => false

/-- A lexeme that is read from behind its first byte can be cut there. -/
theorem dropBytes?_of_spells {rule : Rule} {word : List Char} (h : rule.Spells word)
    (hrule : rule.readsBehindFirst = true) : dropBytes? 1 word = some (word.drop 1) := by
  cases rule with
  | real =>
    obtain ⟨whole, fraction, rfl, -⟩ := h
    exact dropBytes?_one rfl _
  | integer =>
    obtain ⟨whole, rfl, -⟩ := h
    exact dropBytes?_one rfl _
  | char =>
    obtain ⟨c, -, rfl | rfl⟩ := h
    · exact dropBytes?_one rfl _
    · exact dropBytes?_one rfl _
  | _ => cases hrule

/-- Behind its sharp sign a real has digits on both sides of a point. -/
theorem isPointed_of_spells_real {word : List Char} (h : Spells .real word) :
    Numeral.IsPointed (word.drop 1) := by
  obtain ⟨whole, fraction, rfl, hwhole, hfraction⟩ := h
  exact ⟨whole, fraction, rfl, hwhole.ne_nil, hfraction.ne_nil, hwhole.isDigit,
    hfraction.isDigit⟩

/-- No real is refused by a function that finds a number in all digits on both sides of a point. -/
theorem readRealBy_ne_refused {number? : List Char → Option Binary64}
    (hnumber : ∀ text, Numeral.IsPointed text → (number? text).isSome = true) {word : List Char}
    (h : Spells .real word) : readRealBy number? word ≠ .refused := by
  obtain ⟨value, hvalue⟩ := Option.isSome_iff_exists.1 (hnumber _ (isPointed_of_spells_real h))
  rw [readRealBy, hvalue]
  intro hrefused
  cases hrefused

end Rule

/-! ## Points where nothing fails -/

/-- The cursor that stands at a point of a source. -/
def Point.cursor (source : String) (point : Point) : Cursor :=
  ⟨source, point.position.offset, point.position.line⟩

/-- At a point of a source nothing fails: its offset lies in the source and between characters, so
that the cursor there can read on; a lexeme there that is read from behind its first byte can be cut
there, and if it is a real it is not refused, whatever finds the number in it. -/
structure Point.IsSafe (number? : List Char → Option Binary64) (source : String) (point : Point) :
    Prop where
  offset_le : point.position.offset ≤ source.utf8ByteSize
  isValid : String.Pos.Raw.IsValid source ⟨point.position.offset⟩
  remainder? : (point.cursor source).remainder? = some point.rest
  character? : (point.cursor source).character? = some point.rest.head?
  dropBytes? : ∀ lexeme, Lexeme.first? Rule.all point.rest = some lexeme →
    lexeme.rule.readsBehindFirst = true → Text.dropBytes? 1 lexeme.text = some (lexeme.text.drop 1)
  real : ∀ lexeme, Lexeme.first? Rule.all point.rest = some lexeme → lexeme.rule = .real →
    Numeral.IsPointed (lexeme.text.drop 1) ∧ Rule.readRealBy number? lexeme.text ≠ .refused ∧
      lexeme.rule.read lexeme.text ≠ .refused

namespace Point

variable {source : String} {point : Point}

/-- The bytes before a point and those that are left there are all bytes of the source. -/
theorem offset_add_byteLength (h : (Point.start source.toList).LeadsTo point) :
    point.position.offset + byteLength point.rest = source.utf8ByteSize := by
  obtain ⟨before, happend, hbefore⟩ := Text.dropBytes?_eq_some_iff.1 (dropBytes?_of_leadsTo h)
  rw [← hbefore, ← byteLength_append, happend, Text.utf8ByteSize_eq]

/-- At every point of a source nothing fails. -/
theorem isSafe_of_leadsTo {number? : List Char → Option Binary64}
    (hnumber : ∀ text, Numeral.IsPointed text → (number? text).isSome = true)
    (h : (Point.start source.toList).LeadsTo point) : point.IsSafe number? source := by
  have hdrop := dropBytes?_of_leadsTo h
  have hremainder : (point.cursor source).remainder? = some point.rest := hdrop
  refine ⟨?_, ?_, hremainder, ?_, ?_, ?_⟩
  · rw [← offset_add_byteLength h]
    exact Nat.le_add_right _ _
  · obtain ⟨before, happend, hbefore⟩ := Text.dropBytes?_eq_some_iff.1 hdrop
    rw [← hbefore]
    exact Text.isValid_of_append_eq happend
  · rw [Cursor.character?, hremainder]
    rfl
  · intro lexeme hfirst hrule
    exact Rule.dropBytes?_of_spells (Lexeme.spells_of_first? hfirst) hrule
  · intro lexeme hfirst hrule
    have hspells := Lexeme.spells_of_first? hfirst
    rw [hrule] at hspells ⊢
    exact ⟨Rule.isPointed_of_spells_real hspells, Rule.readRealBy_ne_refused hnumber hspells,
      Rule.readRealBy_ne_refused (fun _ => Binary64.isSome_ofPointed?) hspells⟩

end Point

namespace Lexer

/-- **No step fails or gets stuck.** After any calls, whatever the symbol table answers and whatever
function finds the numbers in reals, as long as it finds one in all digits on both sides of a point:
nothing fails at any point to which the next step comes; each of its rounds decides the step or
moves the cursor by the bytes of a lexeme, of which there is at least one; and the step is decided
after at most as many rounds as bytes are left. -/
theorem proceeds_of_answers {number? : List Char → Option Binary64}
    (hnumber : ∀ text, Numeral.IsPointed text → (number? text).isSome = true)
    (table : SymbolTable σ η) (state : σ) (source : String) (calls : List Call) :
    let lexer := (((Lexer.start source).answers table calls).run state).1.2
    lexer.cursor = lexer.point.cursor source ∧
      (∀ stop, lexer.point.Visits lexer.rules stop →
        stop.IsSafe number? source ∧
          ((∃ scan, Scan.round lexer.rules stop = .decided scan) ∨
            ∃ lexeme, Lexeme.first? lexer.rules stop.rest = some lexeme ∧
              0 < byteLength lexeme.text ∧
              Scan.round lexer.rules stop = .goesOn (stop.past lexeme) ∧
              (stop.past lexeme).position.offset =
                stop.position.offset + byteLength lexeme.text)) ∧
      Scan.nextWithin lexer.rules (source.utf8ByteSize - lexer.cursor.offset) lexer.point =
        some (Scan.next lexer.rules lexer.point) := by
  have hdelivers := delivers_of_answers table state (Lexer.start source) calls
  have hpoint := hdelivers.yields.leadsTo
  refine ⟨?_, ?_, ?_⟩
  · rw [cursor, hdelivers.source_eq]
    rfl
  · intro stop hstop
    exact ⟨Point.isSafe_of_leadsTo hnumber (hpoint.trans hstop.leadsTo),
      Scan.decided_or_goesOn _ stop⟩
  · have hbytes := Point.offset_add_byteLength hpoint
    refine Scan.nextWithin_eq_some ?_
    rw [← hbytes]
    exact (Nat.add_sub_cancel_left _ _).ge

/-- Behind a character of two bytes and a newline nothing fails at a real. -/
theorem isSafe_behind_wide_character :
    (∀ text, Numeral.IsPointed text → (Binary64.ofPointed? text).isSome = true) ∧
      Point.IsSafe Binary64.ofPointed? "\\é\n#1.5 @" ⟨"#1.5 @".toList, ⟨2, 4⟩⟩ := by
  have hnumber : ∀ text, Numeral.IsPointed text → (Binary64.ofPointed? text).isSome = true :=
    fun _ => Binary64.isSome_ofPointed?
  obtain ⟨-, hstops, -⟩ := proceeds_of_answers hnumber VariableTable.symbols .empty
    "\\é\n#1.5 @" [.nextToken]
  have hlexer : (((Lexer.start "\\é\n#1.5 @").answers VariableTable.symbols [.nextToken]).run
      .empty).1.2 = ⟨"\\é\n#1.5 @", Rule.all, ⟨"\n#1.5 @".toList, ⟨1, 3⟩⟩, false⟩ := by
    decide +kernel
  rw [hlexer] at hstops
  have hfirst : Lexeme.first? Rule.all "\n#1.5 @".toList =
      some ⟨.newline, ['\n'], "#1.5 @".toList⟩ := by decide
  exact ⟨hnumber, (hstops _ (.past .start hfirst rfl)).1⟩

end Lexer

end MiniPascal
