import MiniPascal.Proofs.Failure
import MiniPascal.Proofs.Spelling

/-!
# The log of a run

A run leaves the records of its pulls: those of its tokens, and behind them those of its ending.
Only an ending can report a failure. Main statement: this record is the last one and shows the
error, wherever no rule matches, but it is missing at an integer that is too large
(`records_reportsFailure`).
-/

namespace MiniPascal

open Text

variable {σ η : Type}

/-! ## Records that report a failure -/

/-- Whether a record reports a failure; its message begins with the words for it. -/
def LogRecord.reportsFailure (record : LogRecord) : Bool :=
  "Lexing failed: ".toList.isPrefixOf record.message.toList

/-- The record of an error reports a failure. -/
theorem Pull.reportsFailure_failureRecord (error : Error) :
    (failureRecord error).reportsFailure = true := by
  rw [LogRecord.reportsFailure, failureRecord, String.toList_append, List.isPrefixOf_iff_prefix]
  exact List.prefix_append _ _

/-- A message that begins with another letter reports no failure. -/
theorem LogRecord.reportsFailure_eq_false {record : LogRecord}
    (h : record.message.toList.head? ≠ some 'L') : record.reportsFailure = false := by
  rw [← Bool.not_eq_true, reportsFailure, List.isPrefixOf_iff_prefix]
  rintro ⟨rest, hmessage⟩
  rw [← hmessage] at h
  exact h rfl

/-- The name of a rule begins with a small letter, and is one word. -/
theorem Rule.isLower_name (rule : Rule) :
    (∃ c tail, rule.name.toList = c :: tail ∧ c.isLower = true) ∧ ' ' ∉ rule.name.toList := by
  have hall : (all.all fun rule => rule.name.toList.head?.any Char.isLower ∧
      ' ' ∉ rule.name.toList) = true := by
    decide +kernel
  obtain ⟨hhead, hblank⟩ := of_decide_eq_true (List.all_eq_true.1 hall rule rule.mem_all)
  refine ⟨?_, hblank⟩
  cases hname : rule.name.toList with
  | nil =>
    rw [hname] at hhead
    cases hhead
  | cons c tail =>
    rw [hname] at hhead
    exact ⟨c, tail, rfl, hhead⟩

/-- No record of a token reports a failure. -/
theorem Pull.reportsFailure_of_mem_records {rule : Rule} {lookup : Option Lookup} {token : Token}
    {record : LogRecord} (h : record ∈ (Pull.token rule lookup token).records) :
    record.reportsFailure = false := by
  apply LogRecord.reportsFailure_eq_false
  rcases List.mem_append.1 h with h | h
  · obtain ⟨asked, -, rfl⟩ := Option.map_eq_some_iff.1 (Option.mem_toList.1 h)
    rw [lookupRecord]
    cases asked.origin <;> simp
  · rw [List.mem_singleton.1 h, tokenRecord]
    obtain ⟨⟨c, tail, hname, hc⟩, -⟩ := rule.isLower_name
    simp only [String.toList_append, hname, List.cons_append, List.head?_cons, ne_eq,
      Option.some.injEq]
    rintro rfl
    cases hc

/-! ## Records of a source -/

/-- Against any symbol table, the records of a source are those of pulls of its findings, and of
its ending. -/
theorem exists_records_eq (table : SymbolTable σ η) (state : σ) (source : String) :
    ∃ pulls : List Pull, List.Forall₂ Finding.IsPulled (findings source) pulls ∧
      ((records table source).run state).1 =
        pulls.flatMap Pull.records ++ (ending source).pull.records := by
  obtain ⟨pulls, last, hrun, hpulled⟩ :=
    Lexer.exists_run_pulls table state (Lexer.start source) rfl
  refine ⟨pulls, hpulled, ?_⟩
  unfold records
  rw [StateT.run_bind, hrun]
  show (pulls ++ [(ending source).pull]).flatMap Pull.records = _
  rw [List.flatMap_append, List.flatMap_singleton]

/-- The records of pulled findings report no failure. -/
theorem reportsFailure_of_isPulled {findings : List Finding} {pulls : List Pull}
    (h : List.Forall₂ Finding.IsPulled findings pulls) :
    ∀ record ∈ pulls.flatMap Pull.records, record.reportsFailure = false := by
  induction h with
  | nil => exact List.forall_mem_nil _
  | cons hpulled _ ih =>
    rw [List.flatMap_cons, List.forall_mem_append]
    cases hpulled
    exact ⟨fun _ => Pull.reportsFailure_of_mem_records, ih⟩

/-! ## Reported failures -/

/-- **Failures are reported where no rule matches.** Whatever the symbol table answers, a run
without an error leaves no record of a failure. A run with an error leaves one as its last record,
with the text of the error, and no other one; but if the error is that an integer is too large, it
leaves none. -/
theorem records_reportsFailure (table : SymbolTable σ η) (state : σ) (source : String) :
    let outcome := ((tokenize table source).run state).1
    let log := ((records table source).run state).1
    (∀ tokens, outcome = .ok tokens → ∀ record ∈ log, record.reportsFailure = false) ∧
    ∀ error, outcome = .error error →
      ∃ text, dropBytes? error.position.offset source.toList = some text ∧ IsIllegal text ∧
        (¬ StartsTooLarge text → ∃ earlier,
          log = earlier ++ [⟨.debug, Pull.logTarget, "Lexing failed: " ++ error.message⟩] ∧
            ∀ record ∈ earlier, record.reportsFailure = false) ∧
        (StartsTooLarge text → ∀ record ∈ log, record.reportsFailure = false) := by
  intro outcome log
  obtain ⟨pulls, hpulled, hlog⟩ := exists_records_eq table state source
  obtain ⟨delivered, houtcome⟩ := exists_tokenize_eq table state source
  have hquiet := reportsFailure_of_isPulled hpulled
  change log = _ at hlog
  change outcome = _ at houtcome
  rw [hlog, houtcome]
  cases hending : ending source with
  | finish stop =>
    constructor
    · intro tokens _
      rw [show (Ending.finish stop).pull.records = [] from rfl, List.append_nil]
      exact hquiet
    · intro error herror
      cases herror
  | failure cause c stop =>
    obtain ⟨hstop, ⟨tail, -, hillegal⟩, hcause⟩ := Scan.isIllegal_of_all hending
    constructor
    · intro tokens htokens
      cases htokens
    · intro error herror
      cases herror
      refine ⟨stop.rest, Point.dropBytes?_of_leadsTo hstop, hillegal, fun hsmall => ?_,
        fun hlarge => ?_⟩
      · cases cause with
        | noRule => exact ⟨_, rfl, hquiet⟩
        | refusedLexeme => exact absurd (hcause.1 rfl) hsmall
      · rw [hcause.2 hlarge, show (Ending.failure .refusedLexeme c stop).pull.records = [] from rfl,
          List.append_nil]
        exact hquiet

/-- A run that fails at an integer that is too large by one leaves the records of the name before
it, and no record of the failure. -/
theorem records_of_overflow :
    VariableTable.empty.tokenize "x #9223372036854775808" =
        .error (.illegalCharacter '#' ⟨1, 2⟩) ∧
      VariableTable.empty.records "x #9223372036854775808" =
        [⟨.debug, Pull.logTarget, "Created placeholder entry for identifier \"x\""⟩,
          ⟨.trace, Pull.logTarget, "identifier -> 1:0 Identifier (x)"⟩] ∧
      (VariableTable.empty.records "x #9223372036854775808").any LogRecord.reportsFailure =
        false := by
  decide +kernel

end MiniPascal
