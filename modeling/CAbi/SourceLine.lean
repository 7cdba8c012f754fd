/-!
# SourceLine — lines of C as the preprocessor sees them

Everything this library writes as C is a list of these lines, and `text` is the one place that spells them.
-/
namespace CAbi

inductive SourceLine where
  | define (macroName : String)
  | defineAs (macroName value : String)
  | undefine (macroName : String)
  /-- Opens a part that is read if the first macro is defined and none of the others is. -/
  | ifNeeded (need : String) (guards : List String)
  | ifDefined (macroName : String)
  | ifUndefined (macroName : String)
  | otherwise
  | endIf
  /-- A line the preprocessor passes on. -/
  | code (text : String)
  | blank
  deriving DecidableEq, Repr

namespace SourceLine

def text : SourceLine → String
  | .define m => "#define " ++ m
  | .defineAs m value => "#define " ++ m ++ " " ++ value
  | .undefine m => "#undef " ++ m
  | .ifNeeded need guards =>
    "#if defined(" ++ need ++ ")" ++ String.join (guards.map fun g => " && !defined(" ++ g ++ ")")
  | .ifDefined m => "#ifdef " ++ m
  | .ifUndefined m => "#ifndef " ++ m
  | .otherwise => "#else"
  | .endIf => "#endif"
  | .code s => s
  | .blank => ""

/-- **The text of lines**, each ended by a newline. -/
def textOfLines (ls : List SourceLine) : String := String.join (ls.map fun l => l.text ++ "\n")

end SourceLine
end CAbi
