import MiniPascal.Proofs.Course
import MiniPascal.Proofs.Failure
import MiniPascal.Proofs.Spelling

/-!
# From lexemes to tokens and back

The lexeme at the start of a text settles what a lexer gives that comes there, if it is a literal
(`Lexer.ComesTo.gives`), and so does an illegal text (`Lexer.ComesTo.failsAt`). In the other
direction, each token of a run has been read from the slice of the source between its offset and its
end (`forall₂_isReadFrom`).
-/

namespace MiniPascal

open Text

variable {σ η : Type}

/-! ## What a lexer gives -/

namespace Lexer

/-- A lexer comes to a text with a lexeme's start: reading by all rules, it goes there for its next
token over lexemes that mean nothing. -/
structure ComesTo (lexer : Lexer) (text : List Char) (position : Position) : Prop where
  rules_eq : lexer.rules = Rule.all
  visits : lexer.point.Visits Rule.all ⟨text, position⟩

/-- For its next token a lexer gives one without asking the symbol table, and stands at a point
then. -/
def Gives (lexer : Lexer) (token : Token) (point : Point) : Prop :=
  ∀ (σ η : Type) (table : SymbolTable σ η) (state : σ),
    (lexer.nextToken table).run state =
      ((.ok (some token), { lexer with point := point }), state)

/-- For its next token a lexer fails at a point and reports a character there. -/
def FailsAt (lexer : Lexer) (c : Char) (point : Point) : Prop :=
  ∀ (σ η : Type) (table : SymbolTable σ η) (state : σ),
    (lexer.nextToken table).run state =
      ((.error (.illegalCharacter c point.position), { lexer with point := point }), state)

/-- At first a lexer comes to the whole source. -/
theorem comesTo_start (source : String) :
    (start source).ComesTo source.toList Position.start :=
  ⟨rfl, .start⟩

namespace ComesTo

variable {lexer : Lexer} {text : List Char} {position : Position}

/-- A lexer that stands at a text comes there. -/
theorem behind (h : lexer.ComesTo text position) (point : Point) :
    ComesTo { lexer with point := point } point.rest point.position :=
  ⟨h.rules_eq, .start⟩

/-- Where the first lexeme has a content, a step of the scan finds it. -/
theorem next_eq_found (h : lexer.ComesTo text position) {lexeme : Lexeme} {content : Content}
    (hfirst : Lexeme.first? Rule.all text = some lexeme)
    (hread : lexeme.rule.read lexeme.text = .content content) :
    Scan.next lexer.rules lexer.point = .found ⟨lexeme.rule, position, content,
      ⟨lexeme.rest, position.after lexeme.text⟩⟩ := by
  rw [h.rules_eq, Scan.next_of_visits h.visits, Scan.next_of_decides (.content hfirst hread),
    Point.past_eq (Lexeme.spells_of_first? hfirst)]

/-- **Where the first lexeme is a literal, a lexer gives its token**, and stands behind it. -/
theorem gives (h : lexer.ComesTo text position) {lexeme : Lexeme} {kind : TokenKind}
    {value : TokenValue} (hfirst : Lexeme.first? Rule.all text = some lexeme)
    (hread : lexeme.rule.read lexeme.text = .content (.literal kind value)) :
    lexer.Gives ⟨kind, value, position⟩ ⟨lexeme.rest, position.after lexeme.text⟩ := by
  intro σ η table state
  unfold nextToken
  rw [StateT.run_bind, run_pull_of_found table state (h.next_eq_found hfirst hread) rfl]
  rfl

/-- **At an illegal text a lexer fails** and reports the first character. -/
theorem failsAt {c : Char} {tail : List Char} (h : lexer.ComesTo (c :: tail) position)
    (hillegal : IsIllegal (c :: tail)) : lexer.FailsAt c ⟨c :: tail, position⟩ := by
  have hrest : (Point.mk (c :: tail) position).rest = c :: tail := rfl
  obtain ⟨cause, hstop⟩ := Scan.exists_failure_of_isIllegal hrest hillegal
  have hnext : Scan.next lexer.rules lexer.point =
      .ended (.failure cause c ⟨c :: tail, position⟩) := by
    rw [h.rules_eq, Scan.next_of_visits h.visits, hstop]
  intro σ η table state
  unfold nextToken
  rw [StateT.run_bind, run_pull_of_ended table state hnext]
  rfl

end ComesTo

end Lexer

/-! ## Items of a source by its first lexeme -/

/-- The token of a literal shows what the literal is. -/
theorem Finding.Makes.eq_of_literal {finding : Finding} {token : Token} (h : finding.Makes token)
    {kind : TokenKind} {value : TokenValue} (hcontent : finding.content = .literal kind value) :
    token = ⟨kind, value, finding.position⟩ := by
  obtain ⟨hshows, hposition⟩ := h
  obtain ⟨kind', value', position'⟩ := token
  rw [hcontent] at hshows
  cases hshows
  rw [← hposition]

section Items

variable (table : SymbolTable σ η) (state : σ) {source : String}

/-- The first item of a source that starts with a literal is its token, and the only one if nothing
follows. -/
theorem exists_items_eq_cons {lexeme : Lexeme} {kind : TokenKind} {value : TokenValue}
    (hfirst : Lexeme.first? Rule.all source.toList = some lexeme)
    (hread : lexeme.rule.read lexeme.text = .content (.literal kind value)) :
    ∃ others, ((items table source).run state).1 = .ok ⟨kind, value, Position.start⟩ :: others ∧
      (lexeme.rest = [] → others = []) := by
  obtain ⟨tokens, hitems, hmakes⟩ := exists_items_eq table state source
  have hall : Scan.all Rule.all (Point.start source.toList) = _ :=
    Scan.all_of_content hfirst hread
  unfold findings at hmakes
  rw [hall] at hitems hmakes
  dsimp only at hitems hmakes
  cases hmakes with
  | @cons _ token _ tokens hmade htokens =>
    rw [hitems, hmade.eq_of_literal rfl]
    refine ⟨_, rfl, fun hrest => ?_⟩
    rw [hrest, Scan.all_nil] at htokens ⊢
    cases htokens
    rfl

/-- A source that is one literal has its token only. -/
theorem tokenize_eq_singleton {lexeme : Lexeme} {kind : TokenKind} {value : TokenValue}
    (hfirst : Lexeme.first? Rule.all source.toList = some lexeme) (hrest : lexeme.rest = [])
    (hread : lexeme.rule.read lexeme.text = .content (.literal kind value)) :
    ((tokenize table source).run state).1 = .ok [⟨kind, value, Position.start⟩] := by
  obtain ⟨others, hitems, hnone⟩ := exists_items_eq_cons table state hfirst hread
  rw [hnone hrest] at hitems
  show collect ((items table source).run state).1 = _
  rw [hitems]
  rfl

/-- The only item of an illegal source is an error at its first character. -/
theorem items_eq_singleton_of_isIllegal {c : Char} {tail : List Char}
    (hsource : source.toList = c :: tail) (hillegal : IsIllegal (c :: tail)) :
    ((items table source).run state).1 = [.error (.illegalCharacter c Position.start)] := by
  obtain ⟨tokens, hitems, hmakes⟩ := exists_items_eq table state source
  have hrest : (Point.mk (c :: tail) Position.start).rest = c :: tail := rfl
  obtain ⟨cause, hnext⟩ := Scan.exists_failure_of_isIllegal hrest hillegal
  unfold findings at hmakes
  rw [Point.start, hsource, Scan.all_eq, hnext] at hitems hmakes
  cases hmakes
  exact hitems

end Items

/-! ## The lexeme of a token -/

/-- A token has been read from a lexeme of a source: the lexeme is the slice from the offset of the
token to its end, it is the first lexeme there, and the token shows what it means. -/
structure Token.IsReadFrom (source : List Char) (token : Token) (stop : Nat) (lexeme : Lexeme) :
    Prop where
  slice_eq : slice? source token.position.offset stop = some lexeme.text
  rest_eq : dropBytes? stop source = some lexeme.rest
  first_eq : Lexeme.first? Rule.all (lexeme.text ++ lexeme.rest) = some lexeme
  shows : ∃ content, lexeme.rule.read lexeme.text = .content content ∧
    content.Shows token.kind token.value

/-- What stands between a point and the point behind its first lexeme is the lexeme. -/
theorem Point.slice?_of_leadsTo {rules : List Rule} {source : List Char} {point : Point}
    {lexeme : Lexeme} (h : (start source).LeadsTo point)
    (hfirst : Lexeme.first? rules point.rest = some lexeme) :
    slice? source point.position.offset (point.past lexeme).position.offset =
      some lexeme.text := by
  obtain ⟨before, happend, hposition⟩ := h
  rw [slice?_eq_some_iff, past_eq (Lexeme.spells_of_first? hfirst), hposition]
  refine ⟨before, lexeme.rest, ?_, (Nat.zero_add _).symm, rfl⟩
  rw [Lexeme.append_of_first? hfirst]
  exact happend

/-- The content of a finding has been read from a lexeme, the slice from its offset to its end. -/
theorem Finding.exists_lexeme {source : List Char} {finding : Finding}
    (h : finding ∈ (Scan.all Rule.all (Point.start source)).1) :
    ∃ lexeme, slice? source finding.position.offset finding.next.position.offset =
        some lexeme.text ∧
      dropBytes? finding.next.position.offset source = some lexeme.rest ∧
      Lexeme.first? Rule.all (lexeme.text ++ lexeme.rest) = some lexeme ∧
      lexeme.rule.read lexeme.text = .content finding.content ∧
      finding.next.rest = lexeme.rest := by
  obtain ⟨stop, lexeme, hstop, hfirst, hread, hfinding⟩ := Scan.exists_leadsTo_of_mem_all h
  have hposition : finding.position = stop.position := congrArg Finding.position hfinding
  have hnext : finding.next = stop.past lexeme := congrArg Finding.next hfinding
  rw [hposition, hnext]
  refine ⟨lexeme, Point.slice?_of_leadsTo hstop hfirst, ?_, ?_, hread, rfl⟩
  · exact Point.dropBytes?_of_leadsTo (hstop.trans (Point.leadsTo_past hfirst))
  · rw [Lexeme.append_of_first? hfirst, hfirst]

/-- The token of a finding has been read from a lexeme that ends where the finding does. -/
theorem Finding.exists_isReadFrom {source : String} {finding : Finding} {token : Token}
    (h : finding ∈ findings source) (hmakes : finding.Makes token) :
    ∃ lexeme, token.IsReadFrom source.toList finding.next.position.offset lexeme ∧
      finding.next.rest = lexeme.rest := by
  obtain ⟨lexeme, hslice, hdrop, hfirst, hread, hrest⟩ := exists_lexeme h
  rw [← hmakes.position_eq] at hslice
  exact ⟨lexeme, ⟨hslice, hdrop, hfirst, ⟨_, hread, hmakes.content_shows⟩⟩, hrest⟩

/-- What holds of the tokens of all findings and of their ends holds of the tokens of a run. -/
theorem forall₂_tokenEnds (table : SymbolTable σ η) (state : σ) (source : String)
    {related : Token → Nat → Prop}
    (h : ∀ finding ∈ findings source, ∀ token, finding.Makes token →
      related token finding.next.position.offset) :
    List.Forall₂ related (((items table source).run state).1.filterMap Item.token?)
      (tokenEnds source) := by
  obtain ⟨tokens, hitems, hmakes⟩ := exists_items_eq table state source
  have htokens : ((items table source).run state).1.filterMap Item.token? = tokens := by
    rw [hitems, ← Course.items_eq_append, Course.filterMap_token?_items]
  have hends : tokenEnds source =
      (findings source).map fun finding => finding.next.position.offset := rfl
  rw [htokens, hends, List.forall₂_map_right_iff]
  refine ((List.forall₂_and_left _ _).2 ⟨h, hmakes⟩).flip.imp ?_
  rintro token finding ⟨hrelated, hmade⟩
  exact hrelated token hmade

/-- A source with tokens has no other items, and its scan is finished. -/
theorem exists_finish_of_tokenize (table : SymbolTable σ η) (state : σ) {source : String}
    {tokens : List Token} (h : ((tokenize table source).run state).1 = .ok tokens) :
    ((items table source).run state).1.filterMap Item.token? = tokens ∧
      ∃ last, (Scan.all Rule.all (Point.start source.toList)).2 = .finish last := by
  have hcollect : collect ((items table source).run state).1 = .ok tokens := h
  have hitems := collect_eq_ok_iff.1 hcollect
  refine ⟨?_, ?_⟩
  · have hcourse : (tokens.map .ok : List Item) = (Course.mk tokens none).items :=
      (List.append_nil _).symm
    rw [hitems, hcourse, Course.filterMap_token?_items]
  · obtain ⟨delivered, houtcome⟩ := exists_tokenize_eq table state source
    cases hending : ending source with
    | finish last => exact ⟨last, hending⟩
    | failure cause c point =>
      rw [h, hending] at houtcome
      cases houtcome

/-- **Each token of a run has been read from a lexeme of the source.** -/
theorem forall₂_isReadFrom (table : SymbolTable σ η) (state : σ) (source : String) :
    List.Forall₂ (fun token stop => ∃ lexeme, Token.IsReadFrom source.toList token stop lexeme)
      (((items table source).run state).1.filterMap Item.token?) (tokenEnds source) := by
  apply forall₂_tokenEnds
  intro finding hfinding token hmakes
  obtain ⟨lexeme, hlexeme, -⟩ := Finding.exists_isReadFrom hfinding hmakes
  exact ⟨lexeme, hlexeme⟩

/-- A token that is no identifier is what its lexeme denotes, against any table of variables. -/
theorem Token.IsReadFrom.denotes {source : List Char} {token : Token} {stop : Nat} {lexeme : Lexeme}
    (h : token.IsReadFrom source stop lexeme) (hkind : token.kind ≠ .identifier)
    (table : VariableTable) : Denotes table lexeme.text token.kind token.value := by
  obtain ⟨content, hread, hshows⟩ := h.shows
  have hdenotes := denotes_of_read table (Lexeme.spells_of_first? h.first_eq)
    (Lexeme.not_spells_boolean h.first_eq) hread
  generalize token.kind = kind at hshows hkind ⊢
  generalize token.value = value at hshows ⊢
  cases hshows with
  | literal => exact hdenotes
  | name => exact absurd rfl hkind

end MiniPascal
