import CAbi.Defect
import CAbi.Guard.Scheme
import CAbi.Target
/-!
# Table — the entries of one target

The entries stand in the order of declaration.  `insert` is the only way in and keeps one promise: two entries of one
name never cover the same dialect.  Every question about a name is then a question about the list.  `IndexedTable` is
the same table with an index by name, through which tables are filled.
-/
namespace CAbi

structure Table where
  target : Target
  guards : GuardScheme
  entries : List Entry
  deriving DecidableEq, Repr

namespace Table

def empty (target : Target) (guards : GuardScheme) : Table := ⟨target, guards, []⟩

def entriesOf (t : Table) (name : String) : List Entry := t.entries.filter fun e => e.name == name

def conflict? (t : Table) (e : Entry) : Option Entry :=
  (t.entriesOf e.name).find? fun old => old.scope.overlaps e.scope

/-- **One entry more**, unless another of its name covers a dialect of it. -/
def insert (t : Table) (e : Entry) : Except Defect Table :=
  match t.conflict? e with
  | some old => .error (.duplicate e.name old.scope e.scope)
  | none => .ok { t with entries := t.entries ++ [e] }

/-- **Entries one after the other**: those that conflict are left out and reported. -/
def insertAll (t : Table) : List Entry → Table × List Defect
  | [] => (t, [])
  | e :: es =>
    match t.insert e with
    | .ok t' => t'.insertAll es
    | .error d =>
      let rest := t.insertAll es
      (rest.1, d :: rest.2)

def size (t : Table) : Nat := t.entries.length

def contains (t : Table) (name : String) : Bool := t.entries.any fun e => e.name == name

def lookup (t : Table) (name : String) (d : Dialect) : Option Entry :=
  t.entries.find? fun e => e.name == name && e.scope.admits d

/-- **The dialects a name is defined for.**  Two entries of one name cover both. -/
def scopeOf (t : Table) (name : String) : Option Scope :=
  match t.entriesOf name with
  | [] => none
  | [e] => some e.scope
  | _ => some .any

/-- **The names, each once**, in order of first declaration. -/
def names (t : Table) : List String := (t.entries.map (·.name)).eraseDups

def groups (t : Table) : List (List Entry) := t.names.map t.entriesOf

end Table
end CAbi
