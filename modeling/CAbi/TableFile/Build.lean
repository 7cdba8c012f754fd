import CAbi.LoadError
import CAbi.Table.Check
import CAbi.TableFile.Basic
import CAbi.Toml.Document
/-!
# TableFile.Build — from a file to a checked table

A spelling that cannot be read ends the load at once.  A type that sets none or several of the three bodies is a
defect like any other: it is left out, and reported before the defects of the types that remain.
-/
namespace CAbi
namespace TableFile

inductive SectionFault where
  | spelling (error : SpellingError)
  | shape (defect : Defect)
  deriving DecidableEq, Repr

def SpelledField.parse (f : SpelledField) : Except SpellingError Field := do
  let type ← CType.ofSpelling f.spelling
  .ok { name := f.name, type := type, length := f.length }

/-- The fields in order, or the first spelling that is refused. -/
def parseFields (fs : List SpelledField) : Except SpellingError (List Field) := fs.mapM SpelledField.parse

def SpelledRecord.parse (r : SpelledRecord) : Except SpellingError Record := do
  let fields ← parseFields r.fields
  .ok { kind := r.kind, tag := r.tag, tagOnly := r.tagOnly, fields := fields }

namespace TypeSection

/-- **The body a section sets**, if it sets exactly one; the spellings of several are not looked at. -/
def body (s : TypeSection) : Except SectionFault Body :=
  match s.typedef, s.record, s.views with
  | some spelling, none, none => ((CType.ofSpelling spelling).map Body.synonym).mapError .spelling
  | none, some record, none => (record.parse.map Body.record).mapError .spelling
  | none, none, some views => ((parseFields views).map Body.opaqueHandle).mapError .spelling
  | none, none, none => .error (.shape (.noBody s.name))
  | _, _, _ => .error (.shape (.severalBodies s.name))

def entry (s : TypeSection) : Except SectionFault Entry :=
  s.body.map fun body =>
    { name := s.name, scope := s.scope, body := body, foreignAliases := s.foreignAliases, extraAliases := s.aliases }

end TypeSection

/-- **The entries of the sections and the defects of those that are none**, or the first spelling that is refused. -/
def entries : List TypeSection → Except LoadError (List Entry × List Defect)
  | [] => .ok ([], [])
  | s :: ss =>
    match s.entry with
    | .error (.spelling error) => .error (.spelling s.name error)
    | .error (.shape defect) => (entries ss).map fun (es, ds) => (es, defect :: ds)
    | .ok e => (entries ss).map fun (es, ds) => (e :: es, ds)

def build (f : TableFile) : Except LoadError Table :=
  match entries f.types with
  | .error e => .error e
  | .ok (es, shapeDefects) =>
    match Table.ofEntries f.target f.guards es, shapeDefects with
    | .ok t, [] => .ok t
    | .ok _, ds => .error (.defects ds)
    | .error found, ds => .error (.defects (ds ++ found))

end TableFile

namespace Table

def ofText (text : String) : Except LoadError Table :=
  match Toml.Document.parse? text with
  | none => .error (.malformed .notToml)
  | some root =>
    match TableFile.ofDocument? root with
    | none => .error (.malformed .wrongSections)
    | some file => file.build

/-- **The table in a file**, given what reading the path came to. -/
def ofFile (path : String) (contents : Except ReadFailure ByteArray) : Except LoadError Table :=
  match contents with
  | .error failure => .error (.unreadable path failure)
  | .ok bytes =>
    match String.fromUTF8? bytes with
    | none => .error (.unreadable path .notUtf8)
    | some text => ofText text

end Table
end CAbi
