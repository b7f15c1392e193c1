import MiniPascal.Proofs.Insertion
import MiniPascal.Proofs.Spelling

/-!
# Resolution against a table of variables

A table of variables may be edited in any way, also so that a name comes to stand in several slots.
An identifier then has the entry of the lowest one, and inserting an entry replaces those of the
identifiers with its name and nothing else. Main statement: `VariableTable.resolves_edited`, for all
tables to which edits lead.
-/

namespace MiniPascal

/-! ## Edited tables -/

/-- A change to a table of variables: an entry is inserted, or the one in a slot is changed at will,
its name included. -/
inductive Edit where
  | insert (entry : SymbolEntry)
  | change (index : Nat) (change : SymbolEntry → SymbolEntry)

namespace VariableTable

/-- A table after some edits. Where there is no slot to be changed, nothing is changed. -/
def edited (table : VariableTable) : List Edit → VariableTable
  | [] => table
  | .insert entry :: edits => (table.insert entry).2.edited edits
  | .change index change :: edits => ((table.modify? index change).getD table).edited edits

/-! ## Entries for names -/

/-- The entry that a name stands for: the one in the lowest slot with this name, and if no slot has
it, a placeholder. -/
inductive StandsFor (table : VariableTable) (name : String) : SymbolEntry → Prop where
  | stored {index : Nat} {entry : SymbolEntry} (hget : table.get? index = some entry)
      (hname : entry.name = name)
      (hlowest : ∀ lower < index, ∀ other, table.get? lower = some other → other.name ≠ name) :
      StandsFor table name entry
  | absent (hfree : ∀ index other, table.get? index = some other → other.name ≠ name) :
      StandsFor table name (.placeholder name)

/-- Resolving a name finds the entry that it stands for. -/
theorem standsFor_entryFor (table : VariableTable) (name : String) :
    table.StandsFor name (table.entryFor name) := by
  unfold entryFor
  cases hfind : table.entries.find? fun entry => entry.name == name with
  | none =>
    refine .absent fun index other hother hname => ?_
    have hne := List.find?_eq_none.1 hfind other (List.mem_of_getElem? hother)
    exact hne (beq_iff_eq.2 hname)
  | some entry =>
    obtain ⟨hname, index, hindex, hget, hlowest⟩ := List.find?_eq_some_iff_getElem.1 hfind
    have hfirst : table.get? index = some entry := by
      rw [get?, List.getElem?_eq_getElem hindex, hget]
    refine .stored hfirst (beq_iff_eq.1 hname) fun lower hlower other hother hsame => ?_
    have hne := hlowest lower hlower
    obtain ⟨hbound, rfl⟩ := List.getElem?_eq_some_iff.1 hother
    simp [hsame] at hne

/-- An entry for a name has this name. -/
theorem StandsFor.name_eq {table : VariableTable} {name : String} {entry : SymbolEntry}
    (h : table.StandsFor name entry) : entry.name = name := by
  cases h with
  | stored _ hname => exact hname
  | absent => rfl

/-- The entry for a name is the one to which the name leads, or a placeholder. -/
theorem entryFor_eq_getD (table : VariableTable) (name : String) :
    table.entryFor name =
      ((table.indexOf? name).bind table.get?).getD (.placeholder name) := by
  rw [entryFor, List.find?_eq_bind_findIdx?_getElem?]
  rfl

/-- An inserted entry is the one for its name; all other names keep their entries. -/
theorem entryFor_insert (table : VariableTable) (entry : SymbolEntry) (name : String) :
    (table.insert entry).2.entryFor name =
      if entry.name = name then entry else table.entryFor name := by
  rw [entryFor_eq_getD, entryFor_eq_getD, indexOf?_bind_get?_insert]
  split <;> rfl

end VariableTable

/-! ## Tokens with another entry -/

/-- A token against a table in which an entry has been inserted: an identifier that is spelled with
the name of the entry has this entry, and any other token is the same as before. -/
def Token.redeclared (source : String) (entry : SymbolEntry) (token : Token) : Token :=
  if token.kind = .identifier ∧ token.spelling source = entry.name then
    { token with value := .identifier entry }
  else token

/-- The kind of a content that has been found is that of an identifier only for a name. -/
theorem Finding.kind_ne_identifier {source : String} {finding : Finding} {kind : TokenKind}
    {value : TokenValue} (h : finding ∈ findings source)
    (hcontent : finding.content = .literal kind value) : kind ≠ .identifier := by
  obtain ⟨stop, lexeme, -, -, hread, -⟩ := Scan.exists_leadsTo_of_mem_all h
  rw [hcontent] at hread
  exact Rule.kind_ne_identifier hread

/-- A finding makes a token against a table of variables. -/
theorem Finding.makes_token (table : VariableTable) (finding : Finding) :
    finding.Makes (finding.token table) := by
  obtain ⟨rule, position, content, next⟩ := finding
  cases content with
  | literal kind value => exact ⟨.literal kind value, rfl⟩
  | name name => exact ⟨.name name (table.entryFor name), rfl⟩

/-- Inserting an entry redeclares the token of a finding. -/
theorem Finding.token_insert {source : String} {finding : Finding} (h : finding ∈ findings source)
    (table : VariableTable) (entry : SymbolEntry) :
    finding.token (table.insert entry).2 = (finding.token table).redeclared source entry := by
  cases hcontent : finding.content with
  | literal kind value =>
    have hkind : (finding.token table).kind ≠ .identifier := by
      rw [token, hcontent]
      exact kind_ne_identifier h hcontent
    rw [Token.redeclared, if_neg fun hboth => hkind hboth.1, token, token, hcontent]
    rfl
  | name name =>
    have hkind : (finding.token table).kind = .identifier := by
      rw [token, hcontent]
      rfl
    have hname : (finding.token table).spelling source = name := by
      have heq := content_eq_of_makes h (finding.makes_token table) hkind
      rw [hcontent, Content.name.injEq] at heq
      exact heq.symm
    rw [Token.redeclared, hname, token, token, hcontent]
    simp only [Content.kind, Content.value, true_and, VariableTable.entryFor_insert]
    by_cases hsame : entry.name = name
    · rw [if_pos hsame, if_pos hsame.symm]
    · rw [if_neg hsame, if_neg (Ne.symm hsame)]

/-! ## Runs against an edited table -/

/-- Collecting tokens that have been changed one by one changes the tokens that are collected. -/
theorem collect_map (change : Token → Token) (items : List Item) :
    collect (items.map (Except.map change)) = (collect items).map (List.map change) := by
  induction items with
  | nil => rfl
  | cons item items ih =>
    cases item with
    | error error => rfl
    | ok token =>
      rw [List.map_cons]
      show (collect (items.map _)).map (change token :: ·) = ((collect items).map _).map _
      rw [ih]
      cases collect items <;> rfl

namespace VariableTable

/-- The tokens of a source are those of its findings. -/
theorem exists_finding_of_mem_items {table : VariableTable} {source : String} {token : Token}
    (h : .ok token ∈ table.items source) :
    ∃ finding ∈ findings source, finding.token table = token := by
  rw [items_eq, itemsFrom] at h
  rcases List.mem_append.1 h with h | h
  · simpa [findings] using h
  · exact absurd h (Ending.ok_notMem_item? _ token)

/-- An identifier has the entry that its spelling stands for. -/
theorem value_of_mem_items {table : VariableTable} {source : String} {token : Token}
    (h : .ok token ∈ table.items source) (hkind : token.kind = .identifier) :
    token.position.HasName source.toList (token.spelling source) ∧
      token.value = .identifier (table.entryFor (token.spelling source)) := by
  obtain ⟨finding, hfinding, rfl⟩ := exists_finding_of_mem_items h
  have hcontent := Finding.content_eq_of_makes hfinding (finding.makes_token table) hkind
  refine ⟨(Finding.hasName_of_mem hfinding hcontent).1, ?_⟩
  show finding.content.value table = _
  rw [hcontent]
  rfl

/-- Inserting an entry redeclares the tokens of every source. -/
theorem items_insert (table : VariableTable) (entry : SymbolEntry) (source : String) :
    (table.insert entry).2.items source =
      (table.items source).map (Except.map (Token.redeclared source entry)) := by
  rw [items_eq, items_eq, itemsFrom, itemsFrom, List.map_append, List.map_map]
  congr 1
  · refine List.map_congr_left fun finding hfinding => ?_
    rw [Finding.token_insert hfinding]
    rfl
  · cases (Scan.all Rule.all (Point.start source.toList)).2 <;> rfl

/-- **Identifiers are resolved in the same way against all tables to which edits lead.** Each one
has the entry of the lowest slot with its name, or else a placeholder, and this entry has the name
as it is spelled; so two identifiers of one source have the same entry exactly if they are spelled
alike. Inserting an entry gives it to the identifiers that are spelled with its name, and changes
nothing else. -/
theorem resolves_edited (edits : List Edit) (source : String) :
    let table := empty.edited edits
    (∀ token, .ok token ∈ table.items source → token.kind = .identifier →
      token.position.HasName source.toList (token.spelling source) ∧
        ∃ entry, token.value = .identifier entry ∧
          table.StandsFor (token.spelling source) entry ∧ entry.name = token.spelling source) ∧
      (∀ first second, .ok first ∈ table.items source → .ok second ∈ table.items source →
        first.kind = .identifier → second.kind = .identifier →
          (first.value = second.value ↔ first.spelling source = second.spelling source)) ∧
      ∀ entry, (table.insert entry).2.items source =
          (table.items source).map (Except.map (Token.redeclared source entry)) ∧
        (table.insert entry).2.tokenize source =
          (table.tokenize source).map (List.map (Token.redeclared source entry)) := by
  intro table
  refine ⟨fun token htoken hkind => ?_, fun first second hfirst hsecond hkind hkind' => ?_,
    fun entry => ⟨table.items_insert entry source, ?_⟩⟩
  · obtain ⟨hname, hvalue⟩ := value_of_mem_items htoken hkind
    have hstands := table.standsFor_entryFor (token.spelling source)
    exact ⟨hname, _, hvalue, hstands, hstands.name_eq⟩
  · rw [(value_of_mem_items hfirst hkind).2, (value_of_mem_items hsecond hkind').2,
      TokenValue.identifier.injEq]
    constructor
    · intro heq
      have hnames := congrArg SymbolEntry.name heq
      rwa [(table.standsFor_entryFor _).name_eq, (table.standsFor_entryFor _).name_eq] at hnames
    · intro hspelling
      rw [hspelling]
  · rw [tokenize_eq, tokenize_eq, items_insert, collect_map]

example : (empty.edited [.insert (.placeholder "x"), .insert ⟨"y", .procedure, none, none⟩,
    .change 0 fun entry => { entry with name := "y", address := some 4 }]).tokenize "y x" =
      .ok [⟨.identifier, .identifier ⟨"y", .var, none, some 4⟩, ⟨1, 0⟩⟩,
        ⟨.identifier, .identifier (.placeholder "x"), ⟨1, 2⟩⟩] := by
  decide +kernel

end VariableTable

end MiniPascal
