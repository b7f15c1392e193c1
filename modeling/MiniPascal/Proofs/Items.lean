import MiniPascal.Lexer.Tokenize
import MiniPascal.Proofs.Scan

/-!
# The items of a source against a table of variables

A table of variables only answers, so the items of a source can be read off its scan
(`VariableTable.items_eq`). They follow the lexemes of the source one by one
(`itemsFrom_of_skipped`, `itemsFrom_of_content`, and their like), which is how statements on all
runs are proved.
-/

namespace MiniPascal

/-! ## Resolving names -/

namespace VariableTable

/-- The entry that a name stands for: the first one under the name, else a placeholder. -/
def entryFor (table : VariableTable) (name : String) : SymbolEntry :=
  (table.entries.find? fun entry => entry.name == name).getD (.placeholder name)

/-- Looking up a name finds the first entry under it and leaves the table as it is. -/
theorem run_lookup? (table : VariableTable) (name : String) :
    (symbols.lookup? name).run table =
      (table.entries.find? fun entry => entry.name == name, table) := by
  -- the table finds the first entry by its index
  have hcontains : table.contains name = (table.indexOf? name).isSome :=
    List.findIdx?_isSome.symm
  have hfind : (table.entries.find? fun entry => entry.name == name) =
      (table.indexOf? name).bind fun index => table.entries[index]? :=
    List.find?_eq_bind_findIdx?_getElem?
  unfold SymbolTable.lookup?
  rw [StateT.run_bind, show (symbols.contains name).run table = (table.contains name, table) from
    rfl, hcontains, hfind]
  cases hindex : table.indexOf? name with
  | none => rfl
  | some index =>
    have hrun : (symbols.indexOf name).run table = (some index, table) := by
      rw [← hindex]
      rfl
    show (symbols.indexOf name >>= _).run table = _
    rw [StateT.run_bind, hrun]
    rfl

/-- The lookup of a name: the entry is the table's own if the table contains the name. -/
def lookup (table : VariableTable) (name : String) : Lookup :=
  ⟨name, if table.contains name then .table else .placeholder, table.entryFor name⟩

/-- Resolving a name gives its lookup and leaves the table as it is. -/
theorem run_resolve (table : VariableTable) (name : String) :
    (symbols.resolve name).run table = (table.lookup name, table) := by
  have hcontains : table.contains name =
      (table.entries.find? fun entry => entry.name == name).isSome := List.isSome_find?.symm
  unfold SymbolTable.resolve
  rw [StateT.run_bind, run_lookup?, lookup, hcontains]
  unfold entryFor
  cases table.entries.find? fun entry => entry.name == name <;> rfl

end VariableTable

/-! ## Tokens of findings -/

/-- The kind of the token that a content makes. -/
def Content.kind : Content → TokenKind
  | .literal kind _ => kind
  | .name _ => .identifier

/-- The value of the token that a content makes against a table of variables. -/
def Content.value (table : VariableTable) : Content → TokenValue
  | .literal _ value => value
  | .name spelling => .identifier (table.entryFor spelling)

/-- The token of a finding against a table of variables. -/
def Finding.token (table : VariableTable) (finding : Finding) : Token :=
  ⟨finding.content.kind, finding.content.value table, finding.position⟩

/-- The lookup that goes with a content against a table of variables; a literal needs none. -/
def Content.lookup? (table : VariableTable) : Content → Option Lookup
  | .literal _ _ => none
  | .name spelling => some (table.lookup spelling)

/-- The pull of a finding against a table of variables. -/
def Finding.pulled (table : VariableTable) (finding : Finding) : Pull :=
  .token finding.rule (finding.content.lookup? table) (finding.token table)

/-- Pulling a finding leaves the table as it is. -/
theorem Finding.run_pull (table : VariableTable) (finding : Finding) :
    (finding.pull VariableTable.symbols).run table = (finding.pulled table, table) := by
  obtain ⟨rule, position, content, point⟩ := finding
  cases content with
  | literal kind value => rfl
  | name spelling =>
    unfold pull
    rw [StateT.run_bind, table.run_resolve spelling]
    rfl

/-- Pulling findings one after the other leaves the table as it is. -/
theorem Finding.run_mapM_pull (table : VariableTable) (findings : List Finding) :
    (findings.mapM (Finding.pull VariableTable.symbols)).run table =
      (findings.map (Finding.pulled table), table) := by
  induction findings with
  | nil => rfl
  | cons finding findings ih =>
    rw [List.mapM_cons, StateT.run_bind, finding.run_pull table]
    show (findings.mapM (pull VariableTable.symbols) >>= _).run table = _
    rw [StateT.run_bind, ih]
    rfl

/-! ## Items -/

/-- What is left of an iteration is the next item, if there is one, and what is left after it. -/
theorem Lexer.rest_eq_next {σ η : Type} (table : SymbolTable σ η) (lexer : Lexer) :
    lexer.rest table = (do
      let (item?, lexer) ← lexer.next table
      match item? with
      | none => return ([], lexer)
      | some item =>
        let (items, lexer) ← lexer.rest table
        return (item :: items, lexer)) := by
  obtain ⟨source, rules, point, finished⟩ := lexer
  cases finished with
  | true => rfl
  | false =>
    simp only [rest, pulls, next, pull, Bool.false_eq_true, if_false]
    rw [Scan.all_eq]
    cases Scan.next rules point with
    | ended ending => cases ending <;> rfl
    | found finding =>
      obtain ⟨rule, position, content, next⟩ := finding
      cases content <;> simp [Finding.pull, Pull.item?]

/-- The item of an ending: an error where a scan has failed. -/
def Ending.item? : Ending → Option Item
  | .finish _ => none
  | .failure _ character point => some (.error (.illegalCharacter character point.position))

namespace VariableTable

/-- The items from a point of a source on. -/
def itemsFrom (table : VariableTable) (rules : List Rule) (point : Point) : List Item :=
  ((Scan.all rules point).1.map fun finding => .ok (finding.token table)) ++
    (Scan.all rules point).2.item?.toList

/-- What is left to pull are the findings from the point of the lexer on, and how their scan ends.
Afterwards the lexer stands there. -/
theorem run_pulls (table : VariableTable) (lexer : Lexer) (h : lexer.finished = false) :
    (lexer.pulls symbols).run table =
      (((Scan.all lexer.rules lexer.point).1.map (Finding.pulled table) ++
          [(Scan.all lexer.rules lexer.point).2.pull],
        { lexer with
          point := (Scan.all lexer.rules lexer.point).2.point
          finished := true }), table) := by
  unfold Lexer.pulls
  rw [h]
  show (_ >>= _ : StateM VariableTable _).run table = _
  rw [StateT.run_bind, Finding.run_mapM_pull]
  rfl

/-- What is left of an iteration are the items from the point of the lexer on. Afterwards the lexer
stands where the scan has ended. -/
theorem run_rest (table : VariableTable) (lexer : Lexer) (h : lexer.finished = false) :
    (lexer.rest symbols).run table =
      ((table.itemsFrom lexer.rules lexer.point,
        { lexer with
          point := (Scan.all lexer.rules lexer.point).2.point
          finished := true }), table) := by
  have hitems : ∀ findings : List Finding, (findings.map (Finding.pulled table)).filterMap
      Pull.item? = findings.map fun finding => .ok (finding.token table) := by
    intro findings
    rw [List.filterMap_map, ← List.filterMap_eq_map]
    rfl
  unfold Lexer.rest itemsFrom
  rw [StateT.run_bind, run_pulls table lexer h]
  show ((List.filterMap Pull.item? (_ ++ _), _), _) = _
  rw [List.filterMap_append, hitems]
  cases (Scan.all lexer.rules lexer.point).2 <;> rfl

/-- The items of a source are those from its start on. -/
theorem items_eq (table : VariableTable) (source : String) :
    table.items source = table.itemsFrom Rule.all (Point.start source.toList) := by
  unfold items MiniPascal.items
  rw [StateT.run_bind, run_rest table (Lexer.start source) rfl]
  rfl

/-! ## Items lexeme by lexeme -/

section Steps

variable (table : VariableTable) {rules : List Rule} {c : Char} {text : List Char}
  {position : Position} {lexeme : Lexeme}

/-- At the end of the source there are no items. -/
theorem itemsFrom_nil : table.itemsFrom rules ⟨[], position⟩ = [] := by
  rw [itemsFrom, Scan.all_nil]
  rfl

/-- Where no rule matches, the only item is an error. -/
theorem itemsFrom_of_none (h : Lexeme.first? rules (c :: text) = none) :
    table.itemsFrom rules ⟨c :: text, position⟩ = [.error (.illegalCharacter c position)] := by
  rw [itemsFrom, Scan.all_of_none h]
  rfl

/-- Where a lexeme is refused, the only item is an error. -/
theorem itemsFrom_of_refused (h : Lexeme.first? rules (c :: text) = some lexeme)
    (hread : lexeme.rule.read lexeme.text = .refused) :
    table.itemsFrom rules ⟨c :: text, position⟩ = [.error (.illegalCharacter c position)] := by
  rw [itemsFrom, Scan.all_of_refused h hread]
  rfl

/-- A lexeme that means nothing makes no item. -/
theorem itemsFrom_of_skipped (h : Lexeme.first? rules text = some lexeme)
    (hread : lexeme.rule.read lexeme.text = .skipped) :
    table.itemsFrom rules ⟨text, position⟩ =
      table.itemsFrom rules ⟨lexeme.rest, position.after lexeme.text⟩ := by
  rw [itemsFrom, Scan.all_of_skipped h hread, itemsFrom]

/-- A lexeme with a content makes a token where it starts. -/
theorem itemsFrom_of_content (h : Lexeme.first? rules text = some lexeme) {content : Content}
    (hread : lexeme.rule.read lexeme.text = .content content) :
    table.itemsFrom rules ⟨text, position⟩ =
      .ok ⟨content.kind, content.value table, position⟩ ::
        table.itemsFrom rules ⟨lexeme.rest, position.after lexeme.text⟩ := by
  rw [itemsFrom, Scan.all_of_content h hread]
  rfl

end Steps

/-- The tokens of a source are collected from its items. -/
theorem tokenize_eq (table : VariableTable) (source : String) :
    table.tokenize source = collect (table.items source) := rfl

end VariableTable

/-! ## Collecting tokens -/

/-- Collecting succeeds exactly with items that are all tokens. -/
theorem collect_eq_ok_iff {items : List Item} {tokens : List Token} :
    collect items = .ok tokens ↔ items = tokens.map .ok := by
  induction items generalizing tokens with
  | nil => cases tokens <;> simp [collect]
  | cons item items ih =>
    cases item with
    | error error => cases tokens <;> simp [collect]
    | ok token =>
      cases tokens with
      | nil => cases h : collect items <;> simp [collect, h, Except.map]
      | cons first tokens =>
        rw [List.map_cons, List.cons.injEq, Except.ok.injEq, ← ih, collect]
        cases collect items with
        | error error => simp [Except.map]
        | ok rest => simp [Except.map]

/-- A source has the tokens of the findings of its scan, if that is finished. -/
theorem VariableTable.tokenize_eq_ok_iff {table : VariableTable} {source : String}
    {tokens : List Token} :
    table.tokenize source = .ok tokens ↔ ∃ findings point,
      Scan.all Rule.all (Point.start source.toList) = (findings, .finish point) ∧
        tokens = findings.map fun finding => finding.token table := by
  rw [tokenize_eq, collect_eq_ok_iff, items_eq, itemsFrom]
  cases hscan : Scan.all Rule.all (Point.start source.toList) with
  | mk findings ending =>
    cases ending with
    | finish point =>
      have hmap : (findings.map fun finding => (.ok (finding.token table) : Item)) =
          (findings.map fun finding => finding.token table).map .ok := by
        rw [List.map_map]
        rfl
      simp only [Ending.item?, Option.toList_none, List.append_nil, hmap]
      rw [List.map_inj_right fun _ _ => Except.ok.inj]
      constructor
      · rintro rfl
        exact ⟨findings, point, rfl, rfl⟩
      · rintro ⟨findings', point', hsame, rfl⟩
        rw [Prod.mk.injEq] at hsame
        rw [hsame.1]
    | failure cause character point =>
      constructor
      · intro hitems
        have hmem : .error (Error.illegalCharacter character point.position) ∈
            tokens.map Except.ok := by
          rw [← hitems]
          simp [Ending.item?]
        simp at hmem
      · rintro ⟨findings', point', hsame, -⟩
        cases hsame

end MiniPascal
