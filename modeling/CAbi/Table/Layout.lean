import CAbi.Layout
import CAbi.Table.Basic
/-!
# Table.Layout — the layout of a name

A name means what its entry's body means, and the body may hold further names by value.  The recursion follows those
names and is bounded by the table: a chain of references longer than the table has entries has met some entry twice,
and a type that contains itself has no layout.
-/
namespace CAbi
namespace Table

/-- **The layout of a name**, looking through at most `fuel` names. -/
def layoutWithin (t : Table) (d : Dialect) : Nat → String → Option Layout
  | 0, _ => none
  | fuel + 1, name => (t.lookup name d).bind fun e => e.body.layout t.target (t.layoutWithin d fuel)

/-- **The layout of a name**; none if it is unknown or incomplete. -/
def layoutOf (t : Table) (d : Dialect) (name : String) : Option Layout := t.layoutWithin d (t.size + 1) name

def bodyLayout (t : Table) (d : Dialect) (body : Body) : Option Layout := body.layout t.target (t.layoutOf d)

end Table
end CAbi
