import MiniPascal.Proofs.Questions
import MiniPascal.Proofs.Tiling

/-!
# How identifiers are spelled

An identifier is spelled as it stands in its source: it takes all letters from its offset on, and
whatever symbol table is asked about it, that is the name that is resolved. Main statement: in any
run an identifier is spelled with a name that is not reserved (`not_isReserved_spelling`).
-/

namespace MiniPascal

open Text

variable {σ η : Type}

/-! ## Letters at an offset -/

/-- The letters of a text from a byte offset on, up to the first character that is no letter. -/
def Text.lettersAt (text : List Char) (offset : Nat) : List Char :=
  ((dropBytes? offset text).getD []).takeWhile Char.isAlpha

/-- The spelling of an identifier in its source. -/
def Token.spelling (source : String) (token : Token) : String :=
  String.ofList (lettersAt source.toList token.position.offset)

/-- The words that cannot be identifiers: the booleans and the keywords. -/
def IsReserved (word : String) : Prop :=
  word = "true" ∨ word = "false" ∨ ∃ keyword : Keyword, keyword.spelling = word

/-- A run takes all characters of its class. -/
theorem Text.takeWhile_of_run? {p : Char → Bool} {text taken rest : List Char}
    (h : run? p text = some (taken, rest)) : text.takeWhile p = taken := by
  unfold run? at h
  split at h
  · cases h
  · next c run hrun =>
    simp only [Option.some.injEq, Prod.mk.injEq] at h
    rw [hrun, h.1]

/-! ## Names of findings -/

/-- Every finding of a scan has been read where it lies, and the scan has gone on right behind its
lexeme. -/
theorem Scan.exists_leadsTo_of_mem_all {rules : List Rule} {point : Point} {finding : Finding}
    (h : finding ∈ (all rules point).1) :
    ∃ stop lexeme, point.LeadsTo stop ∧ Lexeme.first? rules stop.rest = some lexeme ∧
      lexeme.rule.read lexeme.text = .content finding.content ∧
      finding = ⟨lexeme.rule, stop.position, finding.content, stop.past lexeme⟩ := by
  induction point using Scan.all.induct rules with
  | case1 point first hnext findings ending hall ih =>
    rw [all_eq, hnext] at h
    obtain ⟨stop, lexeme, hvisits, hfirst, hread, hfinding⟩ := exists_visits_of_found hnext
    rcases List.mem_cons.1 h with rfl | h
    · exact ⟨stop, lexeme, hvisits.leadsTo, hfirst, hread, hfinding⟩
    · obtain ⟨later, lexeme', hlater, hread'⟩ := ih h
      have hpast : stop.LeadsTo first.next := by
        rw [hfinding]
        exact Point.leadsTo_past hfirst
      exact ⟨later, lexeme', (hvisits.leadsTo.trans hpast).trans hlater, hread'⟩
  | case2 point ending hnext =>
    rw [all_eq, hnext] at h
    cases h

/-- The findings of a scan of a source. -/
def findings (source : String) : List Finding :=
  (Scan.all Rule.all (Point.start source.toList)).1

/-- How the scan of a source ends. -/
def ending (source : String) : Ending :=
  (Scan.all Rule.all (Point.start source.toList)).2

/-- A name that has been found stands where it has been found, and the letters there are the
name. -/
theorem Finding.hasName_of_mem {source : String} {finding : Finding} {name : String}
    (h : finding ∈ findings source) (hcontent : finding.content = .name name) :
    finding.position.HasName source.toList name ∧
      lettersAt source.toList finding.position.offset = name.toList := by
  obtain ⟨stop, lexeme, hstop, hfirst, hread, hfinding⟩ := Scan.exists_leadsTo_of_mem_all h
  have hposition : finding.position = stop.position := congrArg Finding.position hfinding
  rw [hcontent] at hread
  rw [hposition]
  refine ⟨Position.hasName_of_leadsTo hstop hfirst hread, ?_⟩
  obtain ⟨rule, word, rest⟩ := lexeme
  obtain ⟨rfl, rfl⟩ := Rule.eq_of_read_eq_name hread
  rw [lettersAt, Point.dropBytes?_of_leadsTo hstop, Option.getD_some]
  exact takeWhile_of_run? (Lexeme.cut?_of_first? hfirst)

/-- A name that has been found is not reserved. -/
theorem Finding.not_isReserved_of_mem {source : String} {finding : Finding} {name : String}
    (h : finding ∈ findings source) (hcontent : finding.content = .name name) :
    ¬ IsReserved name := by
  obtain ⟨stop, ⟨rule, word, rest⟩, -, hfirst, hread, -⟩ := Scan.exists_leadsTo_of_mem_all h
  rw [hcontent] at hread
  obtain ⟨rfl, rfl⟩ := Rule.eq_of_read_eq_name hread
  -- a boolean is taken by a rule of its own, and a keyword is not read as a name
  have hboolean := Lexeme.not_spells_boolean hfirst rfl
  rintro (rfl | rfl | ⟨keyword, rfl⟩)
  · exact hboolean (Or.inl rfl)
  · exact hboolean (Or.inr rfl)
  · have hnone : Keyword.ofSpelling? keyword.spelling = none := by
      rw [Rule.read, Rule.readWord, String.ofList_toList] at hread
      split at hread
      · cases hread
      · assumption
    exact List.find?_eq_none.1 hnone keyword (Keyword.mem_all keyword) (beq_self_eq_true _)

/-- A finding of which an identifier is made has found the name with which this is spelled. -/
theorem Finding.content_eq_of_makes {source : String} {finding : Finding} {token : Token}
    (h : finding ∈ findings source) (hmakes : finding.Makes token)
    (hkind : token.kind = .identifier) : finding.content = .name (token.spelling source) := by
  obtain ⟨stop, lexeme, -, -, hread, -⟩ := Scan.exists_leadsTo_of_mem_all h
  have hshows := hmakes.content_shows
  rw [hkind] at hshows
  cases hcontent : finding.content with
  | name name =>
    rw [Token.spelling, hmakes.position_eq, (Finding.hasName_of_mem h hcontent).2,
      String.ofList_toList]
  | literal kind value =>
    rw [hcontent] at hshows hread
    cases hshows with
    | literal => exact absurd rfl (Rule.kind_ne_identifier hread)

/-! ## Tokens of any run -/

/-- Against any symbol table, the items of a source are tokens made of its findings, and the error
at which its scan fails. -/
theorem exists_items_eq (table : SymbolTable σ η) (state : σ) (source : String) :
    ∃ tokens : List Token, ((items table source).run state).1 = tokens.map .ok ++
        (Scan.all Rule.all (Point.start source.toList)).2.item?.toList ∧
      List.Forall₂ Finding.Makes (findings source) tokens := by
  obtain ⟨tokens, last, hrun, hmakes⟩ :=
    Lexer.exists_run_rest table state (Lexer.start source) rfl
  refine ⟨tokens, ?_, hmakes⟩
  unfold items
  rw [StateT.run_bind, hrun]
  rfl

/-- Against any symbol table, the outcome of a source is that of a course that ends as its scan
does. -/
theorem exists_tokenize_eq (table : SymbolTable σ η) (state : σ) (source : String) :
    ∃ tokens : List Token, ((tokenize table source).run state).1 =
      (Course.mk tokens (ending source).error?).outcome := by
  obtain ⟨tokens, hitems, -⟩ := exists_items_eq table state source
  refine ⟨tokens, ?_⟩
  show collect ((items table source).run state).1 = _
  rw [hitems, ← Course.items_eq_append, Course.collect_items]
  rfl

/-- The item of an ending is no token. -/
theorem Ending.ok_notMem_item? (ending : Ending) (token : Token) :
    .ok token ∉ ending.item?.toList := by
  cases ending <;> simp [item?]

/-- Every token of a run has been made of a finding of the source. -/
theorem exists_makes_of_mem_items (table : SymbolTable σ η) (state : σ) {source : String}
    {token : Token} (h : .ok token ∈ ((items table source).run state).1) :
    ∃ finding ∈ findings source, finding.Makes token := by
  obtain ⟨tokens, hitems, hmakes⟩ := exists_items_eq table state source
  have hmem : token ∈ tokens := by
    rw [hitems] at h
    rcases List.mem_append.1 h with h | h
    · simpa using h
    · exact absurd h (Ending.ok_notMem_item? _ token)
  -- the findings and their tokens stand in the same order
  generalize findings source = found at hmakes ⊢
  clear h hitems
  induction hmakes with
  | nil => cases hmem
  | @cons finding first found tokens hmade _ ih =>
    rcases List.mem_cons.1 hmem with rfl | hmem
    · exact ⟨finding, List.mem_cons_self, hmade⟩
    · obtain ⟨other, hother, hmade⟩ := ih hmem
      exact ⟨other, List.mem_cons_of_mem finding hother, hmade⟩

/-- **An identifier is spelled with a name that is not reserved**, whatever the symbol table
answers. -/
theorem not_isReserved_spelling (table : SymbolTable σ η) (state : σ) {source : String}
    {token : Token} (h : .ok token ∈ ((items table source).run state).1)
    (hkind : token.kind = .identifier) : ¬ IsReserved (token.spelling source) := by
  obtain ⟨finding, hfinding, hmade⟩ := exists_makes_of_mem_items table state h
  exact Finding.not_isReserved_of_mem hfinding (Finding.content_eq_of_makes hfinding hmade hkind)

end MiniPascal
