import MiniPascal.CommandLine.Basic

/-!
# The program

Reads the file, runs the command line on it, and prints the outcome.
-/

namespace MiniPascal

/-- The failure behind an error of the system, by its number. Some calls give the number negated. -/
def failureOfCode (code : UInt32) (details : String) : ReadFailure :=
  match min code (0 - code) with
  | 2 => .noSuchFile
  | 20 => .notADirectory
  | 21 => .isADirectory
  | code => .other details code.toNat

/-- The failure behind an error that was raised while a file was read. -/
def failureOfError : IO.Error → ReadFailure
  | .noFileOrDirectory _ code details | .interrupted _ code details => failureOfCode code details
  | .alreadyExists _ code details | .invalidArgument _ code details
  | .permissionDenied _ code details | .resourceExhausted _ code details
  | .inappropriateType _ code details | .noSuchThing _ code details => failureOfCode code details
  | .otherError code details | .resourceBusy code details | .resourceVanished code details
  | .unsupportedOperation code details | .hardwareFault code details
  | .unsatisfiedConstraints code details | .illegalOperation code details
  | .protocolError code details | .timeExpired code details => failureOfCode code details
  | .unexpectedEof => .other "unexpected end of file" 0
  | .userError details => .other details 0

/-- Reads the content of a file. -/
def readContent (path : String) : IO (Except ReadFailure ByteArray) := do
  try
    return .ok (← IO.FS.readBinFile path)
  catch error =>
    return .error (failureOfError error)

/-- The text of a time span, in milliseconds. -/
def elapsedText (nanoseconds : Nat) : String :=
  Text.naturalText (nanoseconds / 1000000) ++ "."
    ++ String.ofList (Text.paddedDigits 6 (nanoseconds % 1000000)) ++ "ms"

/-- The text of the notice of an aborted run. -/
def abortNotice : String :=
  CommandLine.programName ++ " was aborted: a width is out of range"

end MiniPascal

open MiniPascal in
/-- Runs the program on its arguments. The filter of the log comes from the environment. -/
def main (arguments : List String) : IO UInt32 := do
  let filter := (LogFilter.ofName? (← IO.getEnv "RUST_LOG")).getD (.upTo .error)
  let content ← readContent (arguments.headD "")
  let started ← IO.monoNanosNow
  let outcome ← IO.lazyPure fun _ => CommandLine.run arguments filter fun _ => content
  let stopped ← IO.monoNanosNow
  (← IO.getStderr).putStr (outcome.errorText abortNotice)
  (← IO.getStdout).putStr (outcome.outputText (elapsedText (stopped - started)))
  return outcome.exitCode.toUInt32
