import CAbi.Body
import CAbi.Guard.Scheme
import CAbi.TableFile.Section
import CAbi.Target
/-!
# TableFile — the contents of a table file

A file describes a target, optionally a guard scheme, and a list of types.  The target and the scheme come out complete,
with what the file leaves open filled in; the types come out as they are written, their spellings still text.
-/
namespace CAbi

namespace TableFile

/-- A field or view whose type is still text. -/
structure SpelledField where
  name : String
  spelling : String
  length : Option ArrayLength
  deriving DecidableEq, Repr

structure SpelledRecord where
  kind : AggregateKind
  tag : Option String
  tagOnly : Bool
  fields : List SpelledField
  deriving DecidableEq, Repr

/-- **One type of a file.**  It ought to set exactly one of the three bodies. -/
structure TypeSection where
  name : String
  scope : Scope
  typedef : Option String
  record : Option SpelledRecord
  views : Option (List SpelledField)
  foreignAliases : Bool
  aliases : List String
  deriving DecidableEq, Repr

end TableFile

structure TableFile where
  target : Target
  guards : GuardScheme
  types : List TableFile.TypeSection
  deriving DecidableEq, Repr

namespace TableFile

open Toml (Value Entries)

/-! ## The target -/

def models : List (String × DataModel) := [("ilp32", .ilp32), ("lp64", .lp64)]

def endians : List (String × Endian) := [("little", .little), ("big", .big)]

def plainIntegers : List (String × PlainInteger) := [("int", .int), ("long", .long), ("long long", .longLong)]

/-- **Widths over those of the data model.** -/
def widths? (base : Widths) (v : Value) : Option Widths := do
  let s ← Section.ofValue? (base.named.map (·.1)) v
  let short ← s.optional? "short" size?
  let int ← s.optional? "int" size?
  let long ← s.optional? "long" size?
  let longLong ← s.optional? "long_long" size?
  let pointer ← s.optional? "pointer" size?
  let float ← s.optional? "float" size?
  let double ← s.optional? "double" size?
  let longDouble ← s.optional? "long_double" size?
  some { short := short.getD base.short, int := int.getD base.int, long := long.getD base.long,
         longLong := longLong.getD base.longLong, pointer := pointer.getD base.pointer, float := float.getD base.float,
         double := double.getD base.double, longDouble := longDouble.getD base.longDouble }

def alignments? (v : Value) : Option Alignments := do
  let s ← Section.ofValue? ["long_long", "double", "long_double"] v
  let longLong ← s.optional? "long_long" size?
  let double ← s.optional? "double" size?
  let longDouble ← s.optional? "long_double" size?
  some { longLong := longLong, double := double, longDouble := longDouble }

/-- **Choices over those of the data model.** -/
def chosen? (base : Chosen) (v : Value) : Option Chosen := do
  let s ← Section.ofValue? ["addr", "int64", "reg"] v
  let addr ← s.optional? "addr" (word? plainIntegers)
  let int64 ← s.optional? "int64" (word? plainIntegers)
  let reg ← s.optional? "reg" (word? plainIntegers)
  some { addr := addr.getD base.addr, int64 := int64.getD base.int64, reg := reg.getD base.reg }

def builtin? (v : Value) : Option Builtin := do
  let s ← Section.ofValue? ["name", "size", "align"] v
  let name ← s.required? "name" text?
  let size ← s.required? "size" size?
  let align ← s.required? "align" size?
  some { name := name, size := size, align := align }

def target? (v : Value) : Option Target := do
  let s ← Section.ofValue? ["name", "model", "endian", "char_signed", "widths", "align", "macros", "builtins"] v
  let name ← s.required? "name" text?
  let model ← s.required? "model" (word? models)
  let endian ← s.defaulted? "endian" (word? endians) .little
  let charSigned ← s.defaulted? "char_signed" boolean? true
  let widths ← s.defaulted? "widths" (widths? (.ofModel model)) (.ofModel model)
  let align ← s.defaulted? "align" alignments? {}
  let chosen ← s.defaulted? "macros" (chosen? (.ofModel model)) (.ofModel model)
  let builtins ← s.defaulted? "builtins" (list? builtin?) []
  some { name := name, endian := endian, charSigned := charSigned, widths := widths, align := align, chosen := chosen,
         builtins := builtins }

/-! ## The guards -/

def guards? (v : Value) : Option GuardScheme := do
  let base : GuardScheme := {}
  let s ← Section.ofValue? ["need", "primary", "aliases"] v
  let need ← s.optional? "need" text?
  let primary ← s.optional? "primary" text?
  let aliases ← s.optional? "aliases" (list? text?)
  some { need := need.getD base.need, primary := primary.getD base.primary, aliases := aliases.getD base.aliases }

/-! ## The types -/

def aggregateKinds : List (String × AggregateKind) := [("struct", .struct), ("union", .union)]

/-- **The length of a field**: a count, or a table with `bytes`, whose other keys say nothing. -/
def length? (v : Value) : Option ArrayLength :=
  match v with
  | .table _ es => ((Entries.get? es "bytes").bind size?).map .bytes
  | v => (size? v).map .count

def field? (v : Value) : Option SpelledField := do
  let s ← Section.ofValue? ["name", "ty", "len"] v
  let name ← s.required? "name" text?
  let spelling ← s.required? "ty" text?
  let length ← s.optional? "len" length?
  some { name := name, spelling := spelling, length := length }

/-- A view of an opaque handle always has a count. -/
def view? (v : Value) : Option SpelledField := do
  let s ← Section.ofValue? ["name", "ty", "len"] v
  let name ← s.required? "name" text?
  let spelling ← s.required? "ty" text?
  let count ← s.required? "len" size?
  some { name := name, spelling := spelling, length := some (.count count) }

def record? (v : Value) : Option SpelledRecord := do
  let s ← Section.ofValue? ["kind", "tag", "tag_only", "fields"] v
  let kind ← s.defaulted? "kind" (word? aggregateKinds) .struct
  let tag ← s.optional? "tag" text?
  let tagOnly ← s.defaulted? "tag_only" boolean? false
  let fields ← s.required? "fields" (list? field?)
  some { kind := kind, tag := tag, tagOnly := tagOnly, fields := fields }

def type? (v : Value) : Option TypeSection := do
  let s ← Section.ofValue? ["name", "dialect", "typedef", "record", "opaque", "foreign_aliases", "aliases"] v
  let name ← s.required? "name" text?
  let scope ← s.defaulted? "dialect" (word? Scope.words) .any
  let typedef ← s.optional? "typedef" text?
  let record ← s.optional? "record" record?
  let views ← s.optional? "opaque" (list? view?)
  let foreignAliases ← s.defaulted? "foreign_aliases" boolean? true
  let aliases ← s.defaulted? "aliases" (list? text?) []
  some { name := name, scope := scope, typedef := typedef, record := record, views := views,
         foreignAliases := foreignAliases, aliases := aliases }

/-- **The table file a document holds**; none if some section is not what it should be. -/
def ofDocument? (root : Entries) : Option TableFile := do
  let s ← Section.ofValue? ["target", "guards", "types"] (.table .header root)
  let target ← s.required? "target" target?
  let guards ← s.defaulted? "guards" guards? {}
  let types ← s.defaulted? "types" (list? type?) []
  some { target := target, guards := guards, types := types }

end TableFile
end CAbi
