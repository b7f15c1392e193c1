import MiniPascal.Proofs.Records
import MiniPascal.Proofs.Resolution

/-!
# The log mirrors the tokens

Against a table of variables every token leaves a record that shows its line in a dump, behind the
name of the first rule that matches where the token starts. An identifier also leaves a record of
its lookup, right before. Main statement: apart from those that report a failure, a run leaves these
records and no other ones, in the order of its tokens (`VariableTable.records_mirror`).
-/

namespace MiniPascal

open Text

/-! ## The first rule that matches -/

/-- A rule is the first one that matches a text: some beginning of the text is a lexeme of the rule,
and none is a lexeme of a rule that is tried before. -/
def Rule.IsFirst (rule : Rule) (text : List Char) : Prop :=
  ∃ earlier later, all = earlier ++ rule :: later ∧ (∃ word, word <+: text ∧ rule.Spells word) ∧
    ∀ rival ∈ earlier, ∀ word, word <+: text → ¬ rival.Spells word

/-- The first lexeme of a text is one of the first rule that matches. -/
theorem Lexeme.isFirst_of_first? {text : List Char} {lexeme : Lexeme}
    (h : first? Rule.all text = some lexeme) : lexeme.rule.IsFirst text := by
  obtain ⟨earlier, rule, later, hall, hrule, hearlier⟩ := List.findSome?_eq_some_iff.1 h
  obtain ⟨⟨word, rest⟩, hcut, hlexeme⟩ := Option.map_eq_some_iff.1 hrule
  have hlongest := (Rule.cutsLongest rule).isLongest hcut
  rw [← hlexeme]
  refine ⟨earlier, later, hall, ⟨word, hlongest.isPrefix, hlongest.mem⟩, fun rival hrival => ?_⟩
  exact (Rule.cutsLongest rival).eq_none_iff.1 (Option.map_eq_none_iff.1 (hearlier rival hrival))

/-- A rule is the first one that matches a source where a token starts. -/
def Token.IsReadBy (source : String) (token : Token) (rule : Rule) : Prop :=
  ∃ text, dropBytes? token.position.offset source.toList = some text ∧ rule.IsFirst text

/-! ## The records of a token -/

/-- The records that a token leaves against a table of variables. The record of an identifier stands
behind one that tells whether the table contains its name. -/
inductive Token.Leaves (table : VariableTable) (source : String) (token : Token) :
    List LogRecord → Prop where
  | resolved {rule : Rule} {entry : SymbolEntry} (hrule : token.IsReadBy source rule)
      (hkind : token.kind = .identifier) (hvalue : token.value = .identifier entry)
      (hname : entry.name = token.spelling source) (hcontains : table.contains entry.name = true) :
      Leaves table source token
        [⟨.debug, Pull.logTarget, "Resolved identifier \"" ++ entry.name ++ "\" from symbol table"⟩,
          ⟨.trace, Pull.logTarget, rule.name ++ " -> " ++ token.dump⟩]
  | created {rule : Rule} {entry : SymbolEntry} (hrule : token.IsReadBy source rule)
      (hkind : token.kind = .identifier) (hvalue : token.value = .identifier entry)
      (hname : entry.name = token.spelling source) (hcontains : table.contains entry.name = false) :
      Leaves table source token
        [⟨.debug, Pull.logTarget,
            "Created placeholder entry for identifier \"" ++ entry.name ++ "\""⟩,
          ⟨.trace, Pull.logTarget, rule.name ++ " -> " ++ token.dump⟩]
  | other {rule : Rule} (hrule : token.IsReadBy source rule) (hkind : token.kind ≠ .identifier) :
      Leaves table source token [⟨.trace, Pull.logTarget, rule.name ++ " -> " ++ token.dump⟩]

/-- The message of a record behind its first word and the arrow. -/
def LogRecord.behindArrow (record : LogRecord) : String :=
  String.ofList ((record.message.toList.dropWhile (· != ' ')).drop 4)

/-- Behind the name of its rule, the record of a token shows the line of the token in a dump. -/
theorem Pull.behindArrow_tokenRecord (rule : Rule) (token : Token) :
    (tokenRecord rule token).behindArrow = token.dump := by
  obtain ⟨-, hblank⟩ := rule.isLower_name
  have hword : ∀ c ∈ rule.name.toList, (c != ' ') = true := by
    intro c hc
    rw [bne_iff_ne]
    rintro rfl
    exact hblank hc
  have hmessage : (tokenRecord rule token).message.toList =
      rule.name.toList ++ ' ' :: '-' :: '>' :: ' ' :: token.dump.toList := by
    simp [tokenRecord]
  rw [LogRecord.behindArrow, hmessage, dropWhile_append_of_head? hword (by simp)]
  exact String.ofList_toList

namespace Finding

variable {source : String} {finding : Finding}

/-- The token of a finding is read by the rule of the finding. -/
theorem isReadBy_token (h : finding ∈ findings source) (table : VariableTable) :
    (finding.token table).IsReadBy source finding.rule := by
  obtain ⟨stop, lexeme, hstop, hfirst, -, hfinding⟩ := Scan.exists_leadsTo_of_mem_all h
  rw [hfinding]
  exact ⟨stop.rest, Point.dropBytes?_of_leadsTo hstop, Lexeme.isFirst_of_first? hfirst⟩

/-- The records of a pulled finding are those that its token leaves. -/
theorem leaves_pulled (h : finding ∈ findings source) (table : VariableTable) :
    (finding.token table).Leaves table source (finding.pulled table).records := by
  have hrule := isReadBy_token h table
  cases hcontent : finding.content with
  | literal kind value =>
    have hkind : (finding.token table).kind ≠ .identifier := by
      rw [token, hcontent]
      exact kind_ne_identifier h hcontent
    rw [pulled, hcontent]
    exact .other hrule hkind
  | name name =>
    have hkind : (finding.token table).kind = .identifier := by
      rw [token, hcontent]
      rfl
    have hvalue : (finding.token table).value = .identifier (table.entryFor name) := by
      rw [token, hcontent]
      rfl
    have hentry : (table.entryFor name).name = name := (table.standsFor_entryFor name).name_eq
    have hspelling : name = (finding.token table).spelling source := by
      have heq := content_eq_of_makes h (finding.makes_token table) hkind
      rw [hcontent, Content.name.injEq] at heq
      exact heq
    have hrecords : (finding.pulled table).records =
        [Pull.lookupRecord (table.lookup name),
          Pull.tokenRecord finding.rule (finding.token table)] := by
      rw [pulled, hcontent]
      rfl
    rw [hrecords, Pull.lookupRecord, VariableTable.lookup]
    cases hcontains : table.contains name with
    | true =>
      have hleaves := Token.Leaves.resolved hrule hkind hvalue (hentry.trans hspelling)
        (by rw [hentry, hcontains])
      rwa [hentry] at hleaves
    | false =>
      have hleaves := Token.Leaves.created hrule hkind hvalue (hentry.trans hspelling)
        (by rw [hentry, hcontains])
      rwa [hentry] at hleaves

/-- The only record of a pulled finding at the finest level is the one of its token. -/
theorem filter_trace_records (table : VariableTable) (finding : Finding) :
    (finding.pulled table).records.filter (·.level = .trace) =
      [Pull.tokenRecord finding.rule (finding.token table)] := by
  obtain ⟨rule, position, content, next⟩ := finding
  cases content with
  | literal kind value => rfl
  | name name =>
    show List.filter _ [Pull.lookupRecord _, Pull.tokenRecord rule _] = _
    have hdebug : (Pull.lookupRecord (table.lookup name)).level = .debug := by
      rw [Pull.lookupRecord]
      split <;> rfl
    rw [List.filter_cons_of_neg (by rw [hdebug]; decide)]
    rfl

end Finding

/-! ## The records of a source -/

namespace VariableTable

variable (table : VariableTable) (source : String)

/-- The records of a source are those of its pulled findings, and those of its ending. -/
theorem records_eq : table.records source =
    ((findings source).map fun finding => (finding.pulled table).records).flatten ++
      (ending source).pull.records := by
  unfold records MiniPascal.records
  rw [StateT.run_bind, run_pulls table (Lexer.start source) rfl]
  show (((findings source).map (Finding.pulled table)) ++ [(ending source).pull]).flatMap _ = _
  rw [List.flatMap_append, List.flatMap_singleton, List.flatMap_map]
  rfl

/-- The tokens among the items of a source are those of its findings. -/
theorem filterMap_token?_items : (table.items source).filterMap Item.token? =
    (findings source).map (Finding.token table) := by
  rw [items_eq_course, Course.filterMap_token?_items]
  rfl

/-- What is left without the records of failures are the records of the pulled findings. -/
theorem filter_records : (table.records source).filter (!·.reportsFailure) =
    ((findings source).map fun finding => (finding.pulled table).records).flatten := by
  rw [records_eq, List.filter_append]
  have hending : (ending source).pull.records.filter (!·.reportsFailure) = [] := by
    cases ending source with
    | finish point => rfl
    | failure cause c point =>
      cases cause with
      | noRule =>
        refine List.filter_eq_nil_iff.2 fun record hrecord => ?_
        rw [List.mem_singleton.1 hrecord, Pull.reportsFailure_failureRecord]
        decide
      | refusedLexeme => rfl
  rw [hending, List.append_nil, List.filter_eq_self]
  intro record hrecord
  obtain ⟨records, hrecords, hrecord⟩ := List.mem_flatten.1 hrecord
  obtain ⟨finding, -, rfl⟩ := List.mem_map.1 hrecords
  rw [Pull.reportsFailure_of_mem_records hrecord]
  rfl

/-- **The log mirrors the tokens.** Apart from the records of failures, a run leaves what each token
of it leaves, in order and also before an error, and nothing else. So behind the names of the rules,
the records of the finest level are the dump of all tokens. -/
theorem records_mirror :
    let tokens := (table.items source).filterMap Item.token?
    let log := (table.records source).filter (!·.reportsFailure)
    (∃ pieces, List.Forall₂ (Token.Leaves table source) tokens pieces ∧ log = pieces.flatten) ∧
      (log.filter (·.level = .trace)).map LogRecord.behindArrow = tokens.map Token.dump := by
  intro tokens log
  have htokens : tokens = (findings source).map (Finding.token table) :=
    table.filterMap_token?_items source
  have hlog : log = _ := table.filter_records source
  rw [htokens, hlog]
  constructor
  · refine ⟨_, ?_, rfl⟩
    rw [List.forall₂_map_left_iff, List.forall₂_map_right_iff, List.forall₂_same]
    exact fun finding hfinding => Finding.leaves_pulled hfinding table
  · have hshown : ∀ finding : Finding, ((finding.pulled table).records.filter
        (·.level = .trace)).map LogRecord.behindArrow = [(finding.token table).dump] := by
      intro finding
      rw [Finding.filter_trace_records, List.map_singleton, Pull.behindArrow_tokenRecord]
    rw [← List.flatMap_def, List.filter_flatMap, List.map_flatMap, List.map_map,
      List.map_eq_flatMap]
    exact congrArg (List.flatMap · (findings source)) (funext hshown)

example : (ofEntries [⟨"x", .var, some .int, none⟩]).records "x // y\n:= y" =
    [⟨.debug, Pull.logTarget, "Resolved identifier \"x\" from symbol table"⟩,
      ⟨.trace, Pull.logTarget, "identifier -> 1:0 Identifier (x)"⟩,
      ⟨.trace, Pull.logTarget, "assignment -> 2:7 Assignment ()"⟩,
      ⟨.debug, Pull.logTarget, "Created placeholder entry for identifier \"y\""⟩,
      ⟨.trace, Pull.logTarget, "identifier -> 2:10 Identifier (y)"⟩] := by
  decide +kernel

end VariableTable

end MiniPascal
