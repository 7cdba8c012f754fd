import CAbi.Body
import CAbi.Target
/-!
# Declaration — types written back as C

One printer.  The portable text keeps `_Addr`, `_Int64` and `_Reg`; the resolved text is the portable text of the same
body with those kinds replaced by what the target chose (`Style.apply`), so nothing in the printer knows about
targets.
-/
namespace CAbi

def endsInStar (s : String) : Bool := s.toList.getLast? == some '*'

namespace Base

def spelling : Base → String
  | .void => "void"
  | .scalar s => s.spelling
  | .builtin name => name
  | .named name => name
  | .tagged kind tag => kind.keyword ++ " " ++ tag

end Base

namespace CType

/-- One pointer level after the text so far: stars stand together, and away from a word. -/
def addLevel (text : String) (isVolatile : Bool) : String :=
  text ++ (if endsInStar text then "*" else " *") ++ (if isVolatile then "volatile" else "")

def spelling (t : CType) : String :=
  t.pointers.foldl addLevel ((if t.isVolatile then "volatile " else "") ++ t.base.spelling)

/-- **What stands for the element in `sizeof`**: a scalar without sign and qualifier, which do not change its size; any
other type in full. -/
def elementSpelling (t : CType) : String :=
  match t.scalar? with
  | some s => (Scalar.plain s.kind).spelling
  | none => t.spelling

end CType

namespace Field

def bound (f : Field) : String :=
  match f.length with
  | none => ""
  | some (.count n) => "[" ++ n.toNat.repr ++ "]"
  | some (.bytes n) => "[" ++ n.toNat.repr ++ "/sizeof(" ++ f.type.elementSpelling ++ ")]"

/-- **The field's declarator**: type, name, bound; a star touches the name. -/
def declarator (f : Field) : String :=
  f.type.spelling ++ (if endsInStar f.type.spelling then "" else " ") ++ f.name ++ f.bound

end Field

/-- The members in braces, each closed by a semicolon. -/
def membersText (fs : List Field) : String :=
  "\x7b " ++ String.join (fs.map fun f => f.declarator ++ "; ") ++ "\x7d"

namespace Record

/-- **A record's declaration**, of which there are three forms: by tag alone, by tag and name, by name alone. -/
def declaration (r : Record) (name : String) : String :=
  match r.tag, r.tagOnly with
  | some tag, true => r.kind.keyword ++ " " ++ tag ++ " " ++ membersText r.fields ++ ";"
  | some tag, false => "typedef " ++ r.kind.keyword ++ " " ++ tag ++ " " ++ membersText r.fields ++ " " ++ name ++ ";"
  | none, _ => "typedef " ++ r.kind.keyword ++ " " ++ membersText r.fields ++ " " ++ name ++ ";"

end Record

namespace Body

/-- **The declaration of a name as a body.**  An opaque handle is a struct whose one member `__u` is the union of its
views. -/
def declaration (name : String) : Body → String
  | .synonym type => "typedef " ++ ({ name := name, type := type } : Field).declarator ++ ";"
  | .record r => r.declaration name
  | .opaqueHandle views => "typedef struct \x7b union " ++ membersText views ++ " __u; \x7d " ++ name ++ ";"

end Body

/-- **How target-chosen kinds are written.** -/
inductive Style where
  | portable
  | resolved
  deriving DecidableEq, Repr

/-- The body whose plain text is the text of `body` in the style. -/
def Style.apply (style : Style) (t : Target) (body : Body) : Body :=
  match style with
  | .portable => body
  | .resolved => body.mapTypes (CType.mapKind t.concrete)

end CAbi
