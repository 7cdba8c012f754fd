import CAbi.CType
import CAbi.Dialect
/-!
# Body — what a name is declared as

A name of the table is a synonym of another type, a record with named fields, or an opaque handle: a struct around a
union of views, of which only the size and alignment are promised.  An `Entry` is a body under a name, for a scope,
with what the guard scheme has to know about it.
-/
namespace CAbi

inductive ArrayLength where
  | count (n : UInt32)
  /-- As many elements as fit into so many bytes. -/
  | bytes (n : UInt32)
  deriving DecidableEq, Repr

structure Field where
  name : String
  type : CType
  length : Option ArrayLength := none
  deriving DecidableEq, Repr

structure Record where
  kind : AggregateKind := .struct
  tag : Option String := none
  /-- The record is declared by its tag alone, without a type name. -/
  tagOnly : Bool := false
  fields : List Field
  deriving DecidableEq, Repr

inductive Body where
  | synonym (type : CType)
  | record (r : Record)
  | opaqueHandle (views : List Field)
  deriving DecidableEq, Repr

namespace Body

def members : Body → List Field
  | .synonym _ => []
  | .record r => r.fields
  | .opaqueHandle views => views

/-- **The table names the body refers to**, through pointers too, in order of appearance. -/
def references : Body → List String
  | .synonym type => type.reference?.toList
  | .record r => r.fields.filterMap fun f => f.type.reference?
  | .opaqueHandle views => views.filterMap fun f => f.type.reference?

def mapTypes (f : CType → CType) : Body → Body
  | .synonym type => .synonym (f type)
  | .record r => .record { r with fields := r.fields.map fun m => { m with type := f m.type } }
  | .opaqueHandle views => .opaqueHandle (views.map fun m => { m with type := f m.type })

end Body

structure Entry where
  name : String
  scope : Scope := .any
  body : Body
  /-- The alias templates of the table apply to this entry. -/
  foreignAliases : Bool := true
  /-- Guards of this entry alone. -/
  extraAliases : List String := []
  deriving DecidableEq, Repr

end CAbi
