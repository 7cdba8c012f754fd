import CAbi.Toml.Value
/-!
# TableFile.Section — values read as fields

A section of a table file is a table whose keys are its fields.  It may also be an array that lists the fields in
their fixed order.  The two differ in what may be left out: a key that is missing is a missing field, whereas a
position can only be missing at the end, and there only if the field has a value of its own to fall back on.
-/
namespace CAbi
namespace TableFile

open Toml (Value Entries)

/-- **A section with its fields sorted out.** -/
structure Section where
  positional : Bool
  fields : Entries

namespace Section

/-- The elements of an array of either kind. -/
def elements? : Value → Option (List Value)
  | .array vs => some vs
  | .tables ts => some (ts.map fun es => .table .header es)
  | _ => none

/-- **A value as a section with these fields.**  A table may have no other keys; an array may be longer than the
fields. -/
def ofValue? (names : List String) (v : Value) : Option Section :=
  match v with
  | .table _ es => if es.all fun p => names.contains p.1 then some ⟨false, es⟩ else none
  | v => (elements? v).map fun vs => ⟨true, names.zip vs⟩

variable {α : Type}

def required? (s : Section) (name : String) (read : Value → Option α) : Option α := (s.fields.get? name).bind read

def optional? (s : Section) (name : String) (read : Value → Option α) : Option (Option α) :=
  match s.fields.get? name with
  | some v => (read v).map some
  | none => if s.positional then none else some none

def defaulted? (s : Section) (name : String) (read : Value → Option α) (default : α) : Option α :=
  match s.fields.get? name with
  | some v => read v
  | none => some default

end Section

/-! ## Leaves -/

def text? : Value → Option String
  | .text s => some s
  | _ => none

def boolean? : Value → Option Bool
  | .boolean b => some b
  | _ => none

def size? : Value → Option UInt32
  | .integer n => if 0 ≤ n && n.toNat < UInt32.size then some (UInt32.ofNat n.toNat) else none
  | _ => none

def list? {α : Type} (read : Value → Option α) (v : Value) : Option (List α) :=
  (Section.elements? v).bind fun vs => vs.mapM read

def isEmptyContainer : Value → Bool
  | .array vs => vs.isEmpty
  | .table _ es => es.isEmpty
  | _ => false

/-- **One of several words**, as text or as a table that has it for its one key, over an empty value. -/
def word? {α : Type} (words : List (String × α)) : Value → Option α
  | .text s => words.lookup s
  | .table _ [(key, v)] => if isEmptyContainer v then words.lookup key else none
  | _ => none

end TableFile
end CAbi
