import CAbi.Scalar
/-!
# CType — the types a declaration can name

A type is a base, its `volatile` flag, and the pointer levels over it.  The levels are a list rather than a nesting: the
first element is the level next to the base, and each element says whether that pointer itself is `volatile`.  So
`volatile void *volatile` is the base `void`, volatile, with the levels `[true]`.
-/
namespace CAbi

inductive AggregateKind where
  | struct
  | union
  deriving DecidableEq, Repr

def AggregateKind.keyword : AggregateKind → String
  | .struct => "struct"
  | .union => "union"

/-- **What stands under the pointer levels.** -/
inductive Base where
  | void
  | scalar (s : Scalar)
  /-- A type the compiler provides, such as `__builtin_va_list`. -/
  | builtin (name : String)
  /-- Another name of the same table. -/
  | named (name : String)
  /-- An aggregate known by its tag alone: incomplete. -/
  | tagged (kind : AggregateKind) (tag : String)
  deriving DecidableEq, Repr

structure CType where
  base : Base
  isVolatile : Bool := false
  pointers : List Bool := []
  deriving DecidableEq, Repr

namespace CType

def scalar (s : Scalar) : CType := { base := .scalar s }

/-- One more pointer level, not volatile, on top of the others. -/
def pointerTo (t : CType) : CType := { t with pointers := t.pointers ++ [false] }

/-- **The table name the type refers to**, looking through pointers. -/
def reference? (t : CType) : Option String :=
  match t.base with
  | .named n => some n
  | _ => none

/-- The scalar the type is, when it is one and not a pointer to one. -/
def scalar? (t : CType) : Option Scalar :=
  match t.base, t.pointers with
  | .scalar s, [] => some s
  | _, _ => none

def mapKind (f : ScalarKind → ScalarKind) (t : CType) : CType :=
  match t.base with
  | .scalar s => { t with base := .scalar { s with kind := f s.kind } }
  | _ => t

end CType
end CAbi
