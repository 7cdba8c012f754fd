import CAbi.Table.Indexed
/-!
# Table.Check — the defects of a table

Four checks: the guard templates, the numbers of the target, the shape of each body, and the references between entries,
which have to lead somewhere and never back to where they started.  References are followed through pointers too: a
declaration has to come before every use of its name, pointer or not.
-/
namespace CAbi

namespace GuardScheme

def templateDefect? (template : String) : Option Defect :=
  if !Template.hasOnePlaceholder template then some (.placeholderCount template)
  else if !Template.makesIdentifier template then some (.notAnIdentifier template)
  else none

def defects (s : GuardScheme) : List Defect := s.templates.filterMap templateDefect?

end GuardScheme

namespace Target

/-- **The defects of a target**: zeros, under which no layout is meaningful. -/
def defects (t : Target) : List Defect :=
  (t.widths.named.filterMap fun (kind, width) => if width = 0 then some (.zeroWidth kind t.name) else none) ++
  (t.align.named.filterMap fun (kind, align) => if align = some 0 then some (.zeroAlignment kind) else none) ++
  (t.builtins.filterMap fun b => if b.size = 0 ∨ b.align = 0 then some (.emptyBuiltin b.name) else none)

end Target

namespace Field

def isZeroLength (f : Field) : Bool :=
  match f.length with
  | some (.count n) => n == 0
  | some (.bytes n) => n == 0
  | none => false

def hasPositiveCount (f : Field) : Bool :=
  match f.length with
  | some (.count n) => n != 0
  | _ => false

end Field

namespace Entry

def bodyDefects (e : Entry) : List Defect :=
  match e.body with
  | .synonym _ => []
  | .record r =>
    (if r.tagOnly && r.tag.isNone then [.tagOnlyWithoutTag e.name] else []) ++
    (if r.fields.isEmpty then [.noFields e.name] else []) ++
    ((r.fields.filter Field.isZeroLength).map fun f => .zeroLengthField e.name f.name)
  | .opaqueHandle views =>
    (if views.isEmpty then [.noViews e.name] else []) ++
    ((views.filter fun v => !v.hasPositiveCount).map fun v => .viewWithoutCount e.name v.name)

end Entry

namespace Table

def successors (t : Table) (d : Dialect) (name : String) : List String :=
  match t.lookup name d with
  | some e => e.body.references
  | none => []

/-- **`goal` can be reached from a name** by following at most `fuel` references. -/
def reachesWithin (t : Table) (d : Dialect) (goal : String) : Nat → String → Bool
  | 0, name => name == goal
  | fuel + 1, name => name == goal || (t.successors d name).any (t.reachesWithin d goal fuel)

/-- **`goal` can be reached from a name.**  A path that is longer than the table has entries passes some name twice. -/
def reaches (t : Table) (d : Dialect) (name goal : String) : Bool := t.reachesWithin d goal (t.size + 1) name

def referenceDefect? (t : Table) (e : Entry) (d : Dialect) (reference : String) : Option Defect :=
  if (t.lookup reference d).isNone then some (.unresolved e.name reference d)
  else if t.reaches d reference e.name then some (.cycle e.name reference)
  else none

def referenceDefects (t : Table) (e : Entry) : List Defect :=
  (Dialect.all.filter e.scope.admits).flatMap fun d => e.body.references.filterMap (t.referenceDefect? e d)

/-- **Every defect of a table**: guards, target, then entry by entry. -/
def defects (t : Table) : List Defect :=
  t.guards.defects ++ t.target.defects ++ t.entries.flatMap fun e => e.bodyDefects ++ t.referenceDefects e

/-- **A checked table of the entries**, or everything that is wrong with them. -/
def ofEntries (target : Target) (guards : GuardScheme) (entries : List Entry) : Except (List Defect) Table :=
  let (t, conflicts) := (IndexedTable.empty target guards).insertAll entries
  match conflicts ++ t.defects with
  | [] => .ok t.toTable
  | ds => .error ds

end Table
end CAbi
