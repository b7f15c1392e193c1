/-!
# Log records

A record is a message at a level of detail. A filter lets through the records up to a level.
-/

namespace MiniPascal

/-- How detailed a record is; the levels are listed from coarse to fine. -/
inductive Level where
  | error
  | warn
  | info
  | debug
  | trace
  deriving DecidableEq

namespace Level

/-- The place of a level from coarse to fine. -/
def detail : Level → Nat
  | .error => 0
  | .warn => 1
  | .info => 2
  | .debug => 3
  | .trace => 4

/-- The name of a level. -/
def name : Level → String
  | .error => "ERROR"
  | .warn => "WARN"
  | .info => "INFO"
  | .debug => "DEBUG"
  | .trace => "TRACE"

/-- The name of a level, filled up with blanks to the width of the longest one. -/
def paddedName (level : Level) : String :=
  level.name ++ String.ofList (List.replicate (5 - level.name.length) ' ')

end Level

/-- Which records are shown: none, or all up to a level. -/
inductive LogFilter where
  | off
  | upTo (level : Level)
  deriving DecidableEq

namespace LogFilter

/-- Whether records of a level are shown. -/
def admits : LogFilter → Level → Bool
  | .off, _ => false
  | .upTo finest, level => level.detail ≤ finest.detail

/-- The filter with a given name; without a name only errors are shown. -/
def ofName? : Option String → Option LogFilter
  | none => some (.upTo .error)
  | some "off" => some .off
  | some "error" => some (.upTo .error)
  | some "warn" => some (.upTo .warn)
  | some "info" => some (.upTo .info)
  | some "debug" => some (.upTo .debug)
  | some "trace" => some (.upTo .trace)
  | some _ => none

end LogFilter

/-- A message at a level, from a part of the program. -/
structure LogRecord where
  level : Level
  target : String
  message : String
  deriving DecidableEq

namespace LogRecord

/-- The line that shows a record. -/
def line (record : LogRecord) : String :=
  "[" ++ record.level.paddedName ++ " " ++ record.target ++ "] " ++ record.message

end LogRecord

end MiniPascal
