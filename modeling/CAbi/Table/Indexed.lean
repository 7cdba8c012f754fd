import CAbi.Table.Basic
/-!
# Table.Indexed — a table that knows where its entries stand

Beside its entries the table keeps an index: for each name, the positions of the entries of that name.  Questions about
a name are answered from the index.  Only the list of all names is read off the entries.

`insert` makes room for a name before it knows whether the entry will be accepted, and the room stays where the entry is
refused.  So it matters that a name is never left with no position at all: `contains` would know a name that no entry
has, and `scopeOf` would give it both dialects.
-/
namespace CAbi

/-- **The positions of the entries of each name.** -/
structure NameIndex where
  slots : List (String × List Nat) := []
  deriving DecidableEq, Repr

namespace NameIndex

def find? (i : NameIndex) (name : String) : Option (List Nat) := (i.slots.find? fun p => p.1 == name).map (·.2)

/-- Room for a name, with no position in it if the name is new. -/
def reserve (i : NameIndex) (name : String) : NameIndex :=
  if (i.find? name).isSome then i else ⟨i.slots ++ [(name, [])]⟩

/-- One more position for a name that has room. -/
def push (i : NameIndex) (name : String) (slot : Nat) : NameIndex :=
  ⟨i.slots.map fun p => if p.1 == name then (p.1, p.2 ++ [slot]) else p⟩

end NameIndex

structure IndexedTable extends Table where
  index : NameIndex
  deriving DecidableEq, Repr

namespace IndexedTable

def empty (target : Target) (guards : GuardScheme) : IndexedTable := ⟨.empty target guards, {}⟩

def entriesAt (t : IndexedTable) (slots : List Nat) : List Entry := slots.filterMap fun slot => t.entries[slot]?

/-- **One entry offered.**  The table afterwards is there in either case. -/
def insert (t : IndexedTable) (e : Entry) : Except Defect Unit × IndexedTable :=
  let index := t.index.reserve e.name
  match (t.entriesAt ((index.find? e.name).getD [])).find? fun old => old.scope.overlaps e.scope with
  | some old => (.error (.duplicate e.name old.scope e.scope), { t with index := index })
  | none => (.ok (), { t with entries := t.entries ++ [e], index := index.push e.name t.entries.length })

/-- **Entries offered one after the other**, and the defects of those that were refused. -/
def insertAll (t : IndexedTable) : List Entry → IndexedTable × List Defect
  | [] => (t, [])
  | e :: es =>
    match t.insert e with
    | (.ok (), t') => t'.insertAll es
    | (.error d, t') =>
      let rest := t'.insertAll es
      (rest.1, d :: rest.2)

def contains (t : IndexedTable) (name : String) : Bool := (t.index.find? name).isSome

def lookup (t : IndexedTable) (name : String) (d : Dialect) : Option Entry :=
  (t.index.find? name).bind fun slots => (t.entriesAt slots).find? fun e => e.scope.admits d

def scopeOf (t : IndexedTable) (name : String) : Option Scope :=
  match t.index.find? name with
  | none => none
  | some [slot] => t.entries[slot]?.map (·.scope)
  | some _ => some .any

def groups (t : IndexedTable) : List (List Entry) :=
  t.names.map fun name => t.entriesAt ((t.index.find? name).getD [])

end IndexedTable
end CAbi
