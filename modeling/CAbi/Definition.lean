import CAbi.Declaration
import CAbi.SourceLine
import CAbi.Table.Layout
/-!
# Definition — a name as one dialect of a table defines it

What a table says about a name in a dialect is a `Resolution`: a definition, that only the other dialect has one, or
nothing. A definition carries the guards it sets and the layout it has.
-/
namespace CAbi

structure Definition where
  name : String
  dialect : Dialect
  body : Body
  /-- Primary guard first. -/
  guards : List String
  /-- None for an incomplete type. -/
  layout : Option Layout
  deriving DecidableEq, Repr

namespace Definition

/-- **The definition as C**: its declaration, then a `#define` for each guard. -/
def lines (d : Definition) (t : Target) (style : Style) : List SourceLine :=
  .code ((style.apply t d.body).declaration d.name) :: d.guards.map .define

def render (d : Definition) (t : Target) (style : Style) : String := SourceLine.textOfLines (d.lines t style)

/-- **Definitions one after the other**, a blank line between two. -/
def renderAll (ds : List Definition) (t : Target) (style : Style) : String :=
  "\n".intercalate (ds.map fun d => d.render t style)

end Definition

inductive Resolution where
  | defined (d : Definition)
  /-- The name has an entry, but only for the other dialect. -/
  | otherDialect
  | unknown
  deriving DecidableEq, Repr

namespace Table

def resolve (t : Table) (d : Dialect) (name : String) : Resolution :=
  match t.lookup name d with
  | some e => .defined ⟨e.name, d, e.body, t.guards.guardsOf e, t.bodyLayout d e.body⟩
  | none => if t.contains name then .otherDialect else .unknown

/-- **The guards of a name**, whether or not the table defines it. -/
def guardsOf (t : Table) (d : Dialect) (name : String) : List String :=
  match t.lookup name d with
  | some e => t.guards.guardsOf e
  | none => t.guards.guardsOfName name

end Table
end CAbi
