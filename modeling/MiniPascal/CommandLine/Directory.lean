/-!
# Directories

What the command line sees of its working directory: plain files under their names, which it reads
by following a path part by part. A path can also lead out of that directory, to the directories
above it up to the root; they hold no files that are known here. Reading can fail in a few ways,
each with a text of its own.
-/

namespace MiniPascal

/-- Why a file could not be read. -/
inductive ReadFailure where
  | noSuchFile
  | notADirectory
  | isADirectory
  | notText
  | other (description : String) (code : Nat)
  deriving DecidableEq

namespace ReadFailure

/-- The description of a failure with the number that the system gives it. -/
def systemMessage (description code : String) : String :=
  description ++ " (os error " ++ code ++ ")"

/-- The text of a failure. -/
def message : ReadFailure → String
  | .noSuchFile => systemMessage "No such file or directory" "2"
  | .notADirectory => systemMessage "Not a directory" "20"
  | .isADirectory => systemMessage "Is a directory" "21"
  | .notText => "stream did not contain valid UTF-8"
  | .other description code => systemMessage description (String.ofList (Nat.toDigits 10 code))

end ReadFailure

/-- A working directory of plain files, each with its name and its content. -/
structure Directory where
  files : List (String × ByteArray)

/-- A directory that a path can lead to: the working directory, or one above it. -/
inductive Place where
  | within
  | above
  deriving DecidableEq

namespace Directory

/-- The content of the file with a name at a place. Names differ in the case of their letters. -/
def file? (directory : Directory) : Place → String → Option ByteArray
  | .within, name => directory.files.lookup name
  | .above, _ => none

/-- Follows the parts of a path from a place. Empty parts and single dots stay there, two dots lead
above, and any other part names a file, with which the path has to end. -/
def follow (directory : Directory) : Place → List String → Except ReadFailure ByteArray
  | _, [] => .error .isADirectory
  | place, part :: parts =>
    if part = "" ∨ part = "." then directory.follow place parts
    else if part = ".." then directory.follow .above parts
    else match directory.file? place part, parts with
      | none, _ => .error .noSuchFile
      | some content, [] => .ok content
      | some _, _ :: _ => .error .notADirectory

/-- Reads the file at a path. The empty path names nothing, and a path that starts with a slash is
followed from the root. -/
def read (directory : Directory) (path : String) : Except ReadFailure ByteArray :=
  match path.splitOn "/" with
  | [""] => .error .noSuchFile
  | "" :: parts => directory.follow .above parts
  | parts => directory.follow .within parts

end Directory

end MiniPascal
