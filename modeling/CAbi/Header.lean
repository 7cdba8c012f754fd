import CAbi.Declaration
import CAbi.SourceLine
import CAbi.Table.Basic
/-!
# Header — a whole table as one gated header

Each entry becomes a block that is read only if its need macro is defined and none of its guards is, and that then
defines its guards.  What a unit does with requests, the C preprocessor does with need macros.  Entries of one dialect
stand inside a test of `__cplusplus`; the two entries of a split name stand in its two branches.
-/
namespace CAbi
namespace Header

def cxxMacro : String := "__cplusplus"

def block (s : GuardScheme) (e : Entry) : List SourceLine :=
  [.ifNeeded (s.needFor e.name) (s.guardsOf e), .code (e.body.declaration e.name)] ++
  (s.guardsOf e).map .define ++ [.endIf, .blank]

def blockFor (s : GuardScheme) (scope : Scope) (es : List Entry) : List SourceLine :=
  match es.find? fun e => e.scope = scope with
  | some e => block s e
  | none => []

def group (s : GuardScheme) : List Entry → List SourceLine
  | [e] =>
    match e.scope with
    | .any => block s e
    | .c => .ifUndefined cxxMacro :: block s e ++ [.endIf, .blank]
    | .cxx => .ifDefined cxxMacro :: block s e ++ [.endIf, .blank]
  -- a name split between the dialects
  | es =>
    .ifDefined cxxMacro :: blockFor s .cxx es ++ .otherwise :: blockFor s .c es ++ [.endIf, .blank]

/-- **The header's lines**: the target's choices, the entries by name, and the choices taken back. -/
def lines (t : Table) : List SourceLine :=
  (ScalarKind.targetChosen.map fun k => .defineAs k.spelling (t.target.concrete k).spelling) ++ [.blank] ++
  t.groups.flatMap (group t.guards) ++
  ScalarKind.targetChosen.map fun k => .undefine k.spelling

end Header

def Table.header (t : Table) : String := SourceLine.textOfLines (Header.lines t)

end CAbi
