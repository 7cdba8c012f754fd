import CAbi.LoadError
import CAbi.CompilationUnit
/-!
# CommandLine.Report — failures as the user sees them

A failure is a message and the chain of causes behind it.  One cause is indented under the message; several are
numbered.  A cause of more than one line keeps its lines under its first.
-/
namespace CAbi
namespace CommandLine

structure Failure where
  message : String
  causes : List String := []
  deriving DecidableEq, Repr

namespace Failure

/-- Every line after the first set off by a margin. -/
def hang (margin text : String) : String :=
  String.ofList (text.toList.flatMap fun c => if c == '\n' then '\n' :: margin.toList else [c])

/-- The number right-aligned in five columns. -/
def numberColumn (n : Nat) : String := String.ofList (n.repr.toList.leftpad 5 ' ')

def numbered : Nat → List String → String
  | _, [] => ""
  | n, c :: cs => "\n" ++ numberColumn n ++ ": " ++ hang "       " c ++ numbered (n + 1) cs

def causesText : List String → String
  | [] => ""
  | [c] => "\n\nCaused by:\n    " ++ hang "    " c
  | cs => "\n\nCaused by:" ++ numbered 0 cs

def text (f : Failure) : String := "Error: " ++ f.message ++ causesText f.causes ++ "\n"

/-- **A failed load**, under what was being loaded. -/
def ofLoad (what : String) (e : LoadError) : Failure := ⟨what, e.message :: e.cause?.toList⟩

def ofRequest (e : RequestError) : Failure := ⟨e.message, []⟩

end Failure
end CommandLine
end CAbi
