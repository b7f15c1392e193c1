import MiniPascal.CommandLine.Directory
import MiniPascal.Diagnostic
import MiniPascal.Lexer.Tokenize

/-!
# The command line

The program takes one argument, a source file, and dumps its tokens. It says how a run ends by its
exit code: 0 when the source was lexed, 1 when it holds an illegal character, and 2 when it was not
called with one readable file. A run that cannot complete its diagnostic is aborted, with 101.
-/

namespace MiniPascal

/-! ## Outcomes -/

/-- A line of the standard output. How long a run takes is not known beforehand, so the line that
tells it stands for itself. -/
inductive OutputLine where
  | text (line : String)
  | elapsed
  deriving DecidableEq

/-- A line of the standard error. The notice of an aborted run names the thread that it ran in,
which is not known beforehand, so the notice stands for itself. -/
inductive ErrorLine where
  | text (line : String)
  | abortNotice
  deriving DecidableEq

/-- What a run of the program leaves behind. -/
structure Outcome where
  exitCode : UInt8
  output : List OutputLine
  errors : List ErrorLine
  deriving DecidableEq

/-- A text of the given lines, each of them ended by a newline. -/
def unlines (lines : List String) : String :=
  String.join (lines.map (· ++ "\n"))

namespace Outcome

/-- A line of output, given the text of the elapsed time. -/
def outputLine (elapsed : String) : OutputLine → String
  | .text line => line
  | .elapsed => "Tokenized in " ++ elapsed

/-- The standard output, given the text of the elapsed time. -/
def outputText (outcome : Outcome) (elapsed : String) : String :=
  unlines (outcome.output.map (outputLine elapsed))

/-- A line of the standard error, given the text of the notice. -/
def errorLine (notice : String) : ErrorLine → String
  | .text line => line
  | .abortNotice => notice

/-- The standard error, given the text of the notice. -/
def errorText (outcome : Outcome) (notice : String) : String :=
  unlines (outcome.errors.map (errorLine notice))

end Outcome

namespace CommandLine

/-- The name of the program. -/
def programName : String :=
  "pascal_lexer"

/-! ## The log of a run -/

/-- The number of printed tokens. It is counted up from zero in 32 bits, without a check, so that
the largest number is followed by the least one. -/
def countPrinted (tokens : List Token) : Int32 :=
  tokens.foldl (fun count _ => count + 1) 0

/-- The record of a successful run. -/
def emittedRecord (count : Int32) : LogRecord :=
  ⟨.info, programName, "Emitted " ++ Text.integerText count.toInt ++ " tokens"⟩

/-- The lines of the records that a filter admits. -/
def logLines (filter : LogFilter) (records : List LogRecord) : List ErrorLine :=
  (records.filter fun record => filter.admits record.level).map (.text ·.line)

/-! ## Running on a source -/

/-- The exit code of a run that is aborted. -/
def abortedCode : UInt8 :=
  101

/-- The run on a source that was read from `file`. Where its diagnostic cannot be completed, the run
is aborted. -/
def runSource (filter : LogFilter) (file source : String) : Outcome :=
  let items := VariableTable.empty.items source
  let records := VariableTable.empty.records source
  let tokens := items.filterMap Item.token?
  let dump := tokens.map fun token => OutputLine.text token.dump
  match items.findSome? Item.error? with
  | some error =>
    let shown := dump ++ (Diagnostic.lines error file source).map .text
    if Diagnostic.isComplete error source then ⟨1, shown, logLines filter records⟩
    else ⟨abortedCode, shown, logLines filter records ++ [.abortNotice]⟩
  | none =>
    ⟨0, dump ++ [.elapsed], logLines filter (records ++ [emittedRecord (countPrinted tokens)])⟩

/-! ## The whole program -/

/-- The run that finds its file unreadable. -/
def runUnreadable (file : String) (failure : ReadFailure) : Outcome :=
  ⟨2, [], [.text ("Failed to read " ++ file ++ ": " ++ failure.message)]⟩

/-- The run with a wrong number of arguments. -/
def runMisused : Outcome :=
  ⟨2, [], [.text ("Usage: " ++ programName ++ " <source file>")]⟩

/-- The text of a file, if its bytes are UTF-8. -/
def decode (content : ByteArray) : Except ReadFailure String :=
  match String.fromUTF8? content with
  | some source => .ok source
  | none => .error .notText

/-- Runs the program, where `read` gives the content of a file. -/
def run (arguments : List String) (filter : LogFilter)
    (read : String → Except ReadFailure ByteArray) : Outcome :=
  match arguments with
  | [file] =>
    match (read file).bind decode with
    | .ok source => runSource filter file source
    | .error failure => runUnreadable file failure
  | _ => runMisused

end CommandLine

end MiniPascal
