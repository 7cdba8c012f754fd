import CAbi.Body
import CAbi.Guard.Template
/-!
# Scheme — the guards of a name

A definition is guarded by macros: a primary one, and aliases under which other producers of the same vocabulary know
it. Defining the type defines all of them; finding any of them defined means the type is there already.  A further
macro, the need, is how a consumer of a header asks for the type.
-/
namespace CAbi

structure GuardScheme where
  need : String := "__NEED_\x7bname\x7d"
  primary : String := "__DEFINED_\x7bname\x7d"
  aliases : List String := ["__CLANG_\x7bNAME\x7d_DEFINED"]
  deriving DecidableEq, Repr

namespace GuardScheme

/-- Every template, in the order the checks look at them. -/
def templates (s : GuardScheme) : List String := s.need :: s.primary :: s.aliases

def needFor (s : GuardScheme) (name : String) : String := Template.expand s.need name

def primaryFor (s : GuardScheme) (name : String) : String := Template.expand s.primary name

def aliasesFor (s : GuardScheme) (name : String) : List String := s.aliases.map fun t => Template.expand t name

/-- **The guards of a name no entry speaks for**: primary, then aliases. -/
def guardsOfName (s : GuardScheme) (name : String) : List String := s.primaryFor name :: s.aliasesFor name

def addExtra (guards : List String) (extra : String) : List String :=
  if extra ∈ guards then guards else guards ++ [extra]

/-- **The guards of an entry**: primary, then aliases if it takes them, then its own. -/
def guardsOf (s : GuardScheme) (e : Entry) : List String :=
  e.extraAliases.foldl addExtra (s.primaryFor e.name :: if e.foreignAliases then s.aliasesFor e.name else [])

end GuardScheme
end CAbi
