import MiniPascal.Proofs.Lexemes

/-!
# Runs of letters

Booleans are taken off the front of a run of letters, one after the other, before what is left of it
is looked up as a keyword or resolved as a name. Main statement: a run is divided into booleans and
a word that starts with none in one way only, a lexer emits their tokens and goes on behind the run,
and so no identifier starts with a boolean or goes on with a letter (`Lexer.emits_of_isLetterRun`).
-/

namespace MiniPascal

open Text

variable {σ η : Type}

/-! ## Words divided into booleans -/

/-- The word that a boolean is written with. -/
def booleanWord : Bool → List Char
  | true => ['t', 'r', 'u', 'e']
  | false => ['f', 'a', 'l', 's', 'e']

/-- A word is divided into booleans and what is left behind them, which starts with none. -/
structure IsDivided (word : List Char) (booleans : List Bool) (left : List Char) : Prop where
  append_eq : booleans.flatMap booleanWord ++ left = word
  not_prefix : ∀ boolean, ¬ booleanWord boolean <+: left

/-- The language of booleans are the words that they are written with. -/
theorem Rule.spells_boolean_iff {word : List Char} :
    Spells .boolean word ↔ ∃ boolean, booleanWord boolean = word := by
  rw [Bool.exists_bool, or_comm]
  exact or_congr eq_comm eq_comm

/-- The word of a boolean is made of letters. -/
theorem isAlpha_of_mem_booleanWord {boolean : Bool} :
    ∀ c ∈ booleanWord boolean, c.isAlpha = true :=
  Rule.isAlpha_of_spells_boolean (Rule.spells_boolean_iff.2 ⟨boolean, rfl⟩)

/-- A text starts with one boolean at most. -/
theorem eq_of_booleanWord_prefix {first second : Bool} {text : List Char}
    (hfirst : booleanWord first <+: text) (hsecond : booleanWord second <+: text) :
    first = second := by
  obtain ⟨rest, rfl⟩ := hfirst
  cases first <;> cases second <;> first | rfl | simp [booleanWord] at hsecond

namespace IsDivided

variable {word left left' : List Char} {boolean : Bool} {booleans others : List Bool}

/-- A boolean may be put in front of a word that is divided. -/
theorem cons (h : IsDivided word booleans left) (boolean : Bool) :
    IsDivided (booleanWord boolean ++ word) (boolean :: booleans) left := by
  refine ⟨?_, h.not_prefix⟩
  rw [List.flatMap_cons, List.append_assoc, h.append_eq]

/-- The first boolean may be taken off a word that is divided. -/
theorem exists_tail (h : IsDivided word (boolean :: booleans) left) :
    ∃ tail, booleanWord boolean ++ tail = word ∧ IsDivided tail booleans left := by
  refine ⟨booleans.flatMap booleanWord ++ left, ?_, rfl, h.not_prefix⟩
  rw [← h.append_eq, List.flatMap_cons, List.append_assoc]

/-- A word with a boolean at its front is not left as a whole. -/
theorem not_isDivided_nil (h : IsDivided word (boolean :: booleans) left) :
    ¬ IsDivided word [] left' := by
  intro h'
  obtain ⟨tail, happend, -⟩ := h.exists_tail
  refine h'.not_prefix boolean ⟨tail, ?_⟩
  rw [happend]
  exact h'.append_eq.symm

/-- A word is divided in one way only. -/
theorem unique (h : IsDivided word booleans left) (h' : IsDivided word others left') :
    booleans = others ∧ left = left' := by
  induction booleans generalizing word others with
  | nil =>
    cases others with
    | nil => exact ⟨rfl, h.append_eq.trans h'.append_eq.symm⟩
    | cons other others => exact absurd h h'.not_isDivided_nil
  | cons boolean booleans ih =>
    cases others with
    | nil => exact absurd h' h.not_isDivided_nil
    | cons other others =>
      obtain ⟨tail, happend, htail⟩ := h.exists_tail
      obtain ⟨tail', happend', htail'⟩ := h'.exists_tail
      obtain rfl : boolean = other := eq_of_booleanWord_prefix ⟨tail, happend⟩ ⟨tail', happend'⟩
      rw [← happend, List.append_cancel_left_eq] at happend'
      obtain ⟨rfl, rfl⟩ := ih htail (happend' ▸ htail')
      exact ⟨rfl, rfl⟩

end IsDivided

/-- Every word can be divided. -/
theorem exists_isDivided (word : List Char) : ∃ booleans left, IsDivided word booleans left := by
  -- a boolean at the front leaves a shorter word
  induction hlength : word.length using Nat.strong_induction_on generalizing word with
  | _ length ih =>
    by_cases hboolean : ∃ boolean, booleanWord boolean <+: word
    · obtain ⟨boolean, tail, rfl⟩ := hboolean
      have hlt : tail.length < length := by
        have hpos : 0 < (booleanWord boolean).length := by cases boolean <;> decide
        rw [← hlength, List.length_append]
        omega
      obtain ⟨booleans, left, hdivided⟩ := ih tail.length hlt tail rfl
      exact ⟨boolean :: booleans, left, hdivided.cons boolean⟩
    · exact ⟨[], word, rfl, not_exists.1 hboolean⟩

/-! ## First lexemes of letters -/

/-- Letters in front of a text that does not go on with one. -/
structure IsLetterRun (letters rest : List Char) : Prop where
  ne_nil : letters ≠ []
  isAlpha : ∀ c ∈ letters, c.isAlpha = true
  stops : ∀ c ∈ rest.head?, c.isAlpha = false

/-- The first lexeme of a text is a word exactly if this is a run of letters that starts with no
boolean. -/
theorem Lexeme.first?_eq_identifier_iff {word rest : List Char} :
    first? Rule.all (word ++ rest) = some ⟨.identifier, word, rest⟩ ↔
      IsLetterRun word rest ∧ ∀ boolean, ¬ booleanWord boolean <+: word := by
  have hrival : ∀ rival ∈ Rule.all, rival.overrides .identifier = true → rival = .boolean := by
    decide
  rw [first?_eq_some_iff Rule.isOrder_all, (Rule.cutsLongest .identifier).eq_some_iff]
  constructor
  · rintro ⟨⟨hlongest, -⟩, hrivals⟩
    refine ⟨⟨hlongest.mem.1, hlongest.mem.2, fun c hc => ?_⟩, fun boolean hbegin => ?_⟩
    · obtain ⟨tail, rfl⟩ := List.head?_eq_some_iff.1 hc
      rw [← Bool.not_eq_true]
      intro hletter
      -- with the letter behind it the word would be longer
      have hlonger : Rule.Spells .identifier (word ++ [c]) := by
        refine ⟨by simp, ?_⟩
        rw [List.forall_mem_append, List.forall_mem_singleton]
        exact ⟨hlongest.mem.2, hletter⟩
      have hle := hlongest.length_le hlonger ⟨tail, by simp⟩
      rw [List.length_append] at hle
      exact absurd hle (Nat.not_succ_le_self _)
    · have hnone := (Rule.cutsLongest .boolean).eq_none_iff.1 (hrivals .boolean rfl)
      exact hnone _ (hbegin.trans (List.prefix_append word rest))
        (Rule.spells_boolean_iff.2 ⟨boolean, rfl⟩)
  · rintro ⟨hrun, hboolean⟩
    -- no letters get farther than the word
    have hwithin : ∀ other, (∀ c ∈ other, c.isAlpha = true) → other <+: word ++ rest →
        other <+: word := by
      intro other hletters hbegin
      rcases prefix_or_exists_of_prefix_append hbegin with hshort | ⟨c, tail, hc, rfl⟩
      · exact hshort
      · have hletter := hletters c (by simp)
        rw [hrun.stops c hc] at hletter
        cases hletter
    refine ⟨⟨⟨⟨hrun.ne_nil, hrun.isAlpha⟩, List.prefix_append word rest, ?_⟩, rfl⟩, ?_⟩
    · intro other hother hbegin
      exact (hwithin other hother.2 hbegin).length_le
    · intro rival hover
      obtain rfl := hrival rival (Rule.mem_all rival) hover
      rw [(Rule.cutsLongest .boolean).eq_none_iff]
      intro other hbegin hother
      obtain ⟨boolean, rfl⟩ := Rule.spells_boolean_iff.1 hother
      exact hboolean boolean (hwithin _ isAlpha_of_mem_booleanWord hbegin)

/-- The first lexeme of a text that starts with a boolean is this boolean. -/
theorem Lexeme.first?_booleanWord (boolean : Bool) (rest : List Char) :
    first? Rule.all (booleanWord boolean ++ rest) = some ⟨.boolean, booleanWord boolean, rest⟩ := by
  apply first?_of_cut? Rule.isOrder_all _ (by decide)
  cases boolean <;> rfl

/-- A boolean is read as one for `true` and as zero for `false`. -/
theorem Rule.read_booleanWord (boolean : Bool) :
    read .boolean (booleanWord boolean) =
      .content (.literal .boolConst (.bool (if boolean then 1 else 0))) := by
  cases boolean <;> rfl

/-- A word that is no keyword is read as a name. -/
theorem Rule.readWord_eq_name_iff {word : String} :
    readWord word = .content (.name word) ↔ ∀ keyword : Keyword, keyword.spelling ≠ word := by
  have hnone : Keyword.ofSpelling? word = none ↔
      ∀ keyword : Keyword, keyword.spelling ≠ word := by
    rw [Keyword.ofSpelling?, List.find?_eq_none]
    constructor
    · intro h keyword hspelling
      exact h keyword (Keyword.mem_all keyword) (beq_iff_eq.2 hspelling)
    · intro h keyword _ hspelling
      exact h keyword (beq_iff_eq.1 hspelling)
  rw [← hnone, readWord]
  cases Keyword.ofSpelling? word <;> simp

/-- The spelling of a keyword is read as this keyword. -/
theorem Rule.readWord_spelling (keyword : Keyword) :
    readWord keyword.spelling = .content (.literal (.keyword keyword) .absent) := by
  have hall : ∀ keyword ∈ Keyword.all,
      Keyword.ofSpelling? keyword.spelling = some keyword := by
    decide +kernel
  rw [readWord, hall keyword (Keyword.mem_all keyword)]

/-! ## Tokens of a run of letters -/

/-- The tokens of booleans that stand in a row, each one right behind the last. -/
def booleanTokens (position : Position) : List Bool → List Token
  | [] => []
  | boolean :: booleans => ⟨.boolConst, .bool (if boolean then 1 else 0), position⟩ ::
      booleanTokens (position.after (booleanWord boolean)) booleans

/-- The tokens of what is left of a run of letters behind its booleans: none if nothing is left,
else one at its position. That is a keyword if the letters spell it, and otherwise an identifier
with the entry to which they are resolved. -/
inductive LeavesTokens (table : SymbolTable σ η) (position : Position) :
    List Char → σ → List Token → σ → Prop where
  | nothing (state : σ) : LeavesTokens table position [] state [] state
  | keyword {word : List Char} (keyword : Keyword)
      (hspelling : keyword.spelling = String.ofList word) (state : σ) :
      LeavesTokens table position word state [⟨.keyword keyword, .absent, position⟩] state
  | identifier {word : List Char} {state state' : σ} {lookup : Lookup} (hne : word ≠ [])
      (hfree : ∀ keyword : Keyword, keyword.spelling ≠ String.ofList word)
      (hresolve : (table.resolve (String.ofList word)).run state = (lookup, state')) :
      LeavesTokens table position word state
        [⟨.identifier, .identifier lookup.entry, position⟩] state'

namespace Lexer

/-- A lexer emits tokens on its way to a point, and takes the symbol table from one state to
another: as many calls as there are tokens, each for the next token or for the next item of an
iteration that is not over, deliver one each, and iterating to the end delivers them and then goes
on from the point. -/
structure Emits (lexer : Lexer) (table : SymbolTable σ η) (state : σ) (tokens : List Token)
    (point : Point) (state' : σ) : Prop where
  answers : ∀ calls : List Call, calls.length = tokens.length →
    (∀ call ∈ calls, call = .nextToken ∨ call = .next ∧ lexer.finished = false) →
      (lexer.answers table calls).run state =
        ((tokens.map fun token => [.ok token], { lexer with point := point }), state')
  rest : lexer.finished = false → ∀ items last state'',
    (rest table { lexer with point := point }).run state' = ((items, last), state'') →
      (lexer.rest table).run state = ((tokens.map .ok ++ items, last), state'')

namespace Emits

variable {lexer : Lexer} {table : SymbolTable σ η} {state state' last : σ}

/-- Where it stands a lexer has emitted nothing. -/
theorem nil (lexer : Lexer) (table : SymbolTable σ η) (state : σ) :
    lexer.Emits table state [] lexer.point state := by
  refine ⟨fun calls hlength _ => ?_, fun _ items last state'' hrest => hrest⟩
  rw [List.length_eq_zero_iff.1 hlength]
  rfl

/-- What is found by the next step of the scan is emitted first. -/
theorem of_found {finding : Finding} {lookup : Option Lookup} {token : Token} {tokens : List Token}
    {point : Point} (hnext : Scan.next lexer.rules lexer.point = .found finding)
    (hpull : (finding.pull table).run state = (.token finding.rule lookup token, state'))
    (htail : Emits { lexer with point := finding.next } table state' tokens point last) :
    lexer.Emits table state (token :: tokens) point last := by
  refine ⟨fun calls hlength hcalls => ?_, fun hfinished items last' state'' hrest => ?_⟩
  · cases calls with
    | nil => cases hlength
    | cons call calls =>
      obtain ⟨hcall, hothers⟩ := List.forall_mem_cons.1 hcalls
      have hanswer : (lexer.answer table call).run state =
          (([.ok token], { lexer with point := finding.next }), state') := by
        rcases hcall with rfl | ⟨rfl, hfinished⟩
        · show (lexer.nextToken table >>= _).run state = _
          unfold nextToken
          rw [bind_assoc, StateT.run_bind, run_pull_of_found table state hnext hpull]
          rfl
        · show (lexer.next table >>= _).run state = _
          rw [StateT.run_bind, run_next_of_found table state hfinished hnext hpull]
          rfl
      have htokens := htail.answers calls (Nat.succ.inj hlength) hothers
      unfold Lexer.answers
      rw [StateT.run_bind, hanswer]
      show (Lexer.answers table _ calls >>= _).run state' = _
      rw [StateT.run_bind, htokens]
      rfl
  · have htokens := htail.rest hfinished items last' state'' hrest
    rw [rest_eq_next, StateT.run_bind, run_next_of_found table state hfinished hnext hpull]
    show (Lexer.rest table _ >>= _).run state' = _
    rw [StateT.run_bind, htokens]
    rfl

end Emits

variable {lexer : Lexer} {letters rest left : List Char} {position : Position}

/-- A lexer that comes to a run of letters without a boolean at its front emits the token of this
word. -/
theorem ComesTo.exists_emits_word (h : lexer.ComesTo (letters ++ rest) position)
    (hrun : IsLetterRun letters rest) (hboolean : ∀ boolean, ¬ booleanWord boolean <+: letters)
    (table : SymbolTable σ η) (state : σ) :
    ∃ tokens state', LeavesTokens table position letters state tokens state' ∧
      lexer.Emits table state tokens ⟨rest, position.after letters⟩ state' := by
  have hfirst := Lexeme.first?_eq_identifier_iff.2 ⟨hrun, hboolean⟩
  by_cases hkeyword : ∃ keyword : Keyword, keyword.spelling = String.ofList letters
  · obtain ⟨keyword, hspelling⟩ := hkeyword
    have hread : Rule.read .identifier letters =
        .content (.literal (.keyword keyword) .absent) := by
      rw [Rule.read, ← hspelling, Rule.readWord_spelling]
    exact ⟨_, state, .keyword keyword hspelling state,
      .of_found (h.next_eq_found hfirst hread) rfl (.nil _ table state)⟩
  · have hfree := not_exists.1 hkeyword
    have hread : Rule.read .identifier letters = .content (.name (String.ofList letters)) :=
      Rule.readWord_eq_name_iff.2 hfree
    cases hresolve : (table.resolve (String.ofList letters)).run state with
    | mk lookup state' =>
      have hpull : (Finding.pull table ⟨.identifier, position, .name (String.ofList letters),
          ⟨rest, position.after letters⟩⟩).run state = (.token .identifier (some lookup)
            ⟨.identifier, .identifier lookup.entry, position⟩, state') := by
        unfold Finding.pull
        rw [StateT.run_bind, hresolve]
        rfl
      exact ⟨_, state', .identifier hrun.ne_nil hfree hresolve,
        .of_found (h.next_eq_found hfirst hread) hpull (.nil _ table state')⟩

/-- A lexer that comes to a run of letters emits the tokens of its booleans and of what is left. -/
theorem ComesTo.exists_emits {booleans : List Bool} (h : lexer.ComesTo (letters ++ rest) position)
    (hrun : IsLetterRun letters rest) (hdivided : IsDivided letters booleans left)
    (table : SymbolTable σ η) (state : σ) :
    ∃ tokens state',
      LeavesTokens table (position.after (booleans.flatMap booleanWord)) left state tokens state' ∧
        lexer.Emits table state (booleanTokens position booleans ++ tokens)
          ⟨rest, position.after letters⟩ state' := by
  induction booleans generalizing lexer letters position with
  | nil =>
    obtain rfl : left = letters := hdivided.append_eq
    exact h.exists_emits_word hrun hdivided.not_prefix table state
  | cons boolean booleans ih =>
    obtain ⟨tail, rfl, htail⟩ := hdivided.exists_tail
    rw [List.append_assoc] at h
    have hnext := h.next_eq_found (Lexeme.first?_booleanWord boolean (tail ++ rest))
      (Rule.read_booleanWord boolean)
    by_cases hnil : tail = []
    · -- the boolean is the whole run
      subst hnil
      obtain ⟨hbooleans, rfl⟩ := List.append_eq_nil_iff.1 htail.append_eq
      have hnone : IsDivided [] [] [] := ⟨rfl, htail.not_prefix⟩
      obtain ⟨rfl, -⟩ := htail.unique hnone
      exact ⟨[], state, .nothing state, .of_found hnext rfl
        (by rw [List.append_nil]; exact .nil _ table state)⟩
    · have htailRun : IsLetterRun tail rest :=
        ⟨hnil, fun c hc => hrun.isAlpha c (List.mem_append_right _ hc), hrun.stops⟩
      obtain ⟨tokens, state', hleaves, hemits⟩ := ih
        (h.behind ⟨tail ++ rest, position.after (booleanWord boolean)⟩) htailRun htail
      refine ⟨tokens, state', ?_, ?_⟩
      · rw [List.flatMap_cons, Position.after_append]
        exact hleaves
      · rw [Position.after_append]
        exact .of_found hnext rfl hemits

/-- **Runs of letters are divided into booleans and one word.** A run of letters is divided in one
way into booleans and what is left behind them. A lexer that comes to the run emits the booleans,
each one right behind the last, then a keyword or an identifier for all that is left, if something
is left, and goes on right behind the run. So in any run of a lexer an identifier is a run of
letters that is no keyword and starts with no boolean, and no letter follows it. -/
theorem emits_of_isLetterRun (table : SymbolTable σ η) (state : σ) :
    (∀ (lexer : Lexer) (letters rest : List Char) (position : Position),
      lexer.ComesTo (letters ++ rest) position → IsLetterRun letters rest →
        (∃! division : List Bool × List Char, IsDivided letters division.1 division.2) ∧
        ∀ booleans left, IsDivided letters booleans left → ∃ tokens state',
          LeavesTokens table (position.after (booleans.flatMap booleanWord)) left state tokens
              state' ∧
            lexer.Emits table state (booleanTokens position booleans ++ tokens)
              ⟨rest, position.after letters⟩ state') ∧
    ∀ source : String, List.Forall₂
      (fun token stop => token.kind = .identifier → ∃ word rest,
        slice? source.toList token.position.offset stop = some word ∧
        dropBytes? stop source.toList = some rest ∧
        IsLetterRun word rest ∧
        (∀ keyword : Keyword, keyword.spelling ≠ String.ofList word) ∧
        ∀ boolean, ¬ booleanWord boolean <+: word)
      (((items table source).run state).1.filterMap Item.token?) (tokenEnds source) := by
  refine ⟨fun lexer letters rest position h hrun => ⟨?_, ?_⟩, fun source => ?_⟩
  · obtain ⟨booleans, left, hdivided⟩ := exists_isDivided letters
    refine ⟨(booleans, left), hdivided, ?_⟩
    rintro ⟨others, left'⟩ hother
    obtain ⟨rfl, rfl⟩ := hdivided.unique hother
    rfl
  · intro booleans left hdivided
    exact h.exists_emits hrun hdivided table state
  · refine (forall₂_isReadFrom table state source).imp ?_
    rintro token stop ⟨⟨rule, word, rest⟩, hlexeme⟩ hkind
    obtain ⟨content, hread, hshows⟩ := hlexeme.shows
    rw [hkind] at hshows
    -- no literal is an identifier, so a name has been read
    obtain ⟨name, rfl⟩ : ∃ name, content = .name name := by
      cases content with
      | name name => exact ⟨name, rfl⟩
      | literal kind value =>
        cases hshows with
        | literal => exact absurd rfl (Rule.kind_ne_identifier hread)
    obtain ⟨rfl, rfl⟩ := Rule.eq_of_read_eq_name hread
    obtain ⟨hrun, hboolean⟩ := Lexeme.first?_eq_identifier_iff.1 hlexeme.first_eq
    refine ⟨name.toList, rest, hlexeme.slice_eq, hlexeme.rest_eq, hrun, ?_, hboolean⟩
    rw [Rule.read, String.ofList_toList] at hread
    rw [String.ofList_toList]
    exact Rule.readWord_eq_name_iff.1 hread

/-- Two booleans in front of a word that only looks like one, behind a tab. -/
theorem emits_of_truefalsetruth :
    (∃ tokens state',
      LeavesTokens VariableTable.symbols ⟨1, 10⟩ "truth".toList .empty tokens state' ∧
        (start "\ttruefalsetruth(").Emits VariableTable.symbols .empty
          (booleanTokens ⟨1, 1⟩ [true, false] ++ tokens) ⟨['('], ⟨1, 15⟩⟩ state') ∧
      ∃ word rest, slice? "\ttruefalsetruth(".toList 10 15 = some word ∧
        dropBytes? 15 "\ttruefalsetruth(".toList = some rest ∧ IsLetterRun word rest ∧
        (∀ keyword : Keyword, keyword.spelling ≠ String.ofList word) ∧
        ∀ boolean, ¬ booleanWord boolean <+: word := by
  obtain ⟨hemits, hidentifiers⟩ := emits_of_isLetterRun VariableTable.symbols .empty
  have hblank : Lexeme.first? Rule.all "\ttruefalsetruth(".toList =
      some ⟨.whitespace, ['\t'], "truefalsetruth".toList ++ ['(']⟩ := by decide
  have hvisits : (start "\ttruefalsetruth(").point.Visits Rule.all _ := .past .start hblank rfl
  have hcomes : (start "\ttruefalsetruth(").ComesTo ("truefalsetruth".toList ++ ['(']) ⟨1, 1⟩ :=
    ⟨rfl, hvisits⟩
  have hrun : IsLetterRun "truefalsetruth".toList ['('] :=
    ⟨by decide, List.all_eq_true.1 rfl, by simp⟩
  have hdivided : IsDivided "truefalsetruth".toList [true, false] "truth".toList :=
    ⟨rfl, by decide⟩
  have htokens : ((items VariableTable.symbols "\ttruefalsetruth(").run .empty).1.filterMap
      Item.token? = [⟨.boolConst, .bool 1, ⟨1, 1⟩⟩, ⟨.boolConst, .bool 0, ⟨1, 5⟩⟩,
        ⟨.identifier, .identifier (.placeholder "truth"), ⟨1, 10⟩⟩,
        ⟨.operator .openParen, .absent, ⟨1, 15⟩⟩] := by
    decide +kernel
  have hends : tokenEnds "\ttruefalsetruth(" = [5, 10, 15, 16] := by decide +kernel
  have hidentifier := hidentifiers "\ttruefalsetruth("
  rw [htokens, hends, List.forall₂_cons, List.forall₂_cons, List.forall₂_cons] at hidentifier
  exact ⟨(hemits _ _ _ _ hcomes hrun).2 _ _ hdivided, hidentifier.2.2.1 rfl⟩

end Lexer

end MiniPascal
