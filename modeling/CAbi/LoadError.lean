import CAbi.Defect
import CAbi.Spelling.Grammar
/-!
# LoadError — why there is no table

Reading a table can fail at five points, from the file to the finished table.  Three of the errors pass on another
one, and a report lists both (`cause?`).
-/
namespace CAbi

/-- **Why a file has no text.** -/
inductive ReadFailure where
  | notFound
  | permissionDenied
  | isDirectory
  | notDirectory
  | nameTooLong
  | notUtf8
  | other (text : String)
  deriving DecidableEq, Repr

def ReadFailure.message : ReadFailure → String
  | .notFound => "No such file or directory (os error 2)"
  | .permissionDenied => "Permission denied (os error 13)"
  | .isDirectory => "Is a directory (os error 21)"
  | .notDirectory => "Not a directory (os error 20)"
  | .nameTooLong => "File name too long (os error 36)"
  | .notUtf8 => "stream did not contain valid UTF-8"
  | .other text => text

/-- **Why a text is no table file.** -/
inductive Malformed where
  | notToml
  | wrongSections
  deriving DecidableEq, Repr

def Malformed.message : Malformed → String
  | .notToml => "the text is not a TOML document"
  | .wrongSections => "the document has missing, unknown or ill-typed keys"

inductive LoadError where
  | unreadable (path : String) (failure : ReadFailure)
  | malformed (why : Malformed)
  | spelling (entry : String) (error : SpellingError)
  | unknownTarget (name : String)
  | defects (ds : List Defect)
  deriving DecidableEq, Repr

namespace LoadError

def message : LoadError → String
  | .unreadable path failure => "failed to read " ++ path ++ ": " ++ failure.message
  | .malformed why => "malformed target table: " ++ why.message
  | .spelling entry error => "entry '" ++ entry ++ "': " ++ error.message
  | .unknownTarget name => "unknown built-in target '" ++ name ++ "'"
  | .defects ds =>
    "target table has " ++ ds.length.repr ++ " defect(s):\n" ++ "\n".intercalate (ds.map fun d => "  " ++ d.text)

def cause? : LoadError → Option String
  | .unreadable _ failure => some failure.message
  | .malformed why => some why.message
  | .spelling _ error => some error.message
  | .unknownTarget _ => none
  | .defects _ => none

end LoadError
end CAbi
