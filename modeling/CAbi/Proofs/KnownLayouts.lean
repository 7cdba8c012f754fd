import CAbi.Proofs.LayoutRelation
import CAbi.Proofs.UnitRun
/-!
# KnownLayouts — a layout is the same wherever and whenever it is asked for

How many names a layout may look through depends on where it is asked for.  Asked of a name, it has looked through one
when it comes to the body of the entry; asked of the same body, as it is for a definition, it has looked through none.
It also depends on when: a table that has grown looks through more names than before, and finds entries where it found
none.

Neither shows in a layout that is known.  The body and its name agree because no layout is lost to the bound
(`layoutOf_eq`), in tables with cycles too.  For the rest two tables are compared by what they find (`Extends`): what
one finds, the other finds.  Then every reading of names that the first completes is one that the second completes, with
the same result, however long the second may search.
-/
namespace CAbi
namespace Table

variable {t t' : Table} {d : Dialect}

/-! ## Tables that find more -/

/-- **What `t` finds, `t'` finds**, for the same target. -/
structure Extends (t t' : Table) : Prop where
  target : t'.target = t.target
  lookup : ∀ {name : String} {d : Dialect} {e : Entry}, t.lookup name d = some e → t'.lookup name d = some e

namespace Extends

theorem refl (t : Table) : t.Extends t := ⟨rfl, id⟩

theorem trans {u : Table} (h : t.Extends t') (h' : t'.Extends u) : t.Extends u :=
  ⟨h'.target.trans h.target, fun hl => h'.lookup (h.lookup hl)⟩

theorem layoutWithin (h : t.Extends t') : ∀ {n : Nat} {name : String} {l : Layout},
    t.layoutWithin d n name = some l → t'.layoutWithin d n name = some l
  | 0, _, _, hl => by cases hl
  | n + 1, _, _, hl => by
    obtain ⟨e, he, hbody⟩ := Option.bind_eq_some_iff.1 hl
    rw [← h.target] at hbody
    exact Option.bind_eq_some_iff.2 ⟨e, h.lookup he, Body.layout_mono (fun _ _ => h.layoutWithin) hbody⟩

theorem layoutOf (h : t.Extends t') {name : String} {l : Layout} (hl : t.layoutOf d name = some l) :
    t'.layoutOf d name = some l := by
  -- the two may search to different depths; what is found within the first's is a layout by the rules, and the second
  -- finds those whatever its depth
  have hrules : t'.NameLayout d name l := nameLayout_of_layoutWithin (h.layoutWithin hl)
  exact layoutOf_eq_some_iff.2 hrules

theorem bodyLayout (h : t.Extends t') {b : Body} {l : Layout} (hl : t.bodyLayout d b = some l) :
    t'.bodyLayout d b = some l := by
  unfold Table.bodyLayout at hl ⊢
  rw [h.target]
  exact Body.layout_mono (fun _ _ => h.layoutOf) hl

end Extends

/-! ## Growth -/

theorem extends_of_insert {e : Entry} (h : t.insert e = .ok t') : t.Extends t' := by
  obtain ⟨-, rfl⟩ := insert_eq_ok_iff.1 h
  refine ⟨rfl, fun {name d old} hold => ?_⟩
  -- the new entry stands at the end, and the first that fits is found
  unfold lookup at hold ⊢
  rw [List.find?_append, hold]
  rfl

theorem extends_insertAll : ∀ (es : List Entry) (t : Table), t.Extends (t.insertAll es).1
  | [], t => .refl t
  | e :: es, t => by
    unfold insertAll
    cases he : t.insert e with
    | ok t' => exact (extends_of_insert he).trans (extends_insertAll es t')
    | error defect => exact extends_insertAll es t

/-- **What is known stays known as the table grows.**  Whatever entries are offered to a table, taken or not: an entry
that was found is found, and a layout that a name or a body had, it has. -/
theorem insertAll_keeps_known (t : Table) (offers : List Entry) (d : Dialect) :
    (∀ name e, t.lookup name d = some e → (t.insertAll offers).1.lookup name d = some e) ∧
    (∀ name l, t.layoutOf d name = some l → (t.insertAll offers).1.layoutOf d name = some l) ∧
    (∀ body l, t.bodyLayout d body = some l → (t.insertAll offers).1.bodyLayout d body = some l) := by
  have hext := extends_insertAll offers t
  exact ⟨fun _ _ => hext.lookup, fun _ _ => hext.layoutOf, fun _ _ => hext.bodyLayout⟩

/-- A word that only C knows, and two of them. -/
def wordEntries : List Entry :=
  let word (name : String) : Field := { name, type := ⟨.named "word", false, []⟩ }
  [{ name := "pair", body := .record { fields := [word "low", word "high"] } },
    { name := "word", scope := .c, body := .synonym (.scalar (.plain .long)) }]

/-- C++ gets a word of its own, and with it a pair; C keeps its pair, also after a word for both has been refused. -/
theorem insertAll_keeps_known_pair :
    let t : Table := ⟨.ofModel "" .lp64, {}, wordEntries⟩
    let int : Body := .synonym (.scalar (.plain .int))
    let grown := (t.insertAll [{ name := "word", scope := .cxx, body := int }, { name := "word", body := int }]).1
    t.layoutOf .c "pair" = some ⟨16, 8⟩ ∧ t.layoutOf .cxx "pair" = none ∧
    grown.size = 3 ∧ grown.layoutOf .c "pair" = some ⟨16, 8⟩ ∧ grown.layoutOf .cxx "pair" = some ⟨8, 4⟩ := by
  intro t int grown
  have hbefore : t.layoutOf .c "pair" = some ⟨16, 8⟩ := by decide
  exact ⟨hbefore, by decide, by decide, (insertAll_keeps_known t _ .c).2.1 _ _ hbefore, by decide⟩

/-! ## Definitions -/

theorem definition_layout {name : String} {e : Entry} (h : t.lookup name d = some e) :
    (t.definition d e).layout = t.layoutOf d name := by
  rw [layoutOf_eq, h]
  rfl

theorem resolve_eq_defined {name : String} {D : Definition} (h : t.resolve d name = .defined D) :
    ∃ e, t.lookup name d = some e ∧ D = t.definition d e := by
  cases he : t.lookup name d with
  | some e =>
    rw [resolve_of_lookup he] at h
    cases h
    exact ⟨e, rfl, rfl⟩
  | none =>
    simp only [resolve, he] at h
    split at h <;> cases h

/-- **A definition carries the layout the table reports.**  In every table, cyclic or not, and every dialect, the layout
of the definition that a name resolves to is the layout of the name; and so it is with every definition that a unit has
emitted, whatever it was asked to do. -/
theorem definition_layout_eq_layoutOf (t : Table) (d : Dialect) :
    (∀ name D, t.resolve d name = .defined D → D.name = name ∧ D.layout = t.layoutOf d name) ∧
    ∀ policy ops, ∀ D ∈ ((CompilationUnit.fresh t d policy).run ops).emitted, D.layout = t.layoutOf d D.name := by
  have hresolved : ∀ name D, t.resolve d name = .defined D → D.name = name ∧ D.layout = t.layoutOf d name := by
    intro name D h
    obtain ⟨e, he, rfl⟩ := resolve_eq_defined h
    exact ⟨(mem_of_lookup_eq_some he).2.1, definition_layout he⟩
  refine ⟨hresolved, fun policy ops D hD => ?_⟩
  have hfresh : (CompilationUnit.fresh t d policy).FromTable := fun D hD => by cases hD
  have hext := CompilationUnit.extends_run ops (CompilationUnit.fresh t d policy)
  have hsays := CompilationUnit.fromTable_run ops hfresh D hD
  rw [hext.table, hext.dialect] at hsays
  exact (hresolved D.name D hsays).2

/-- A chain of synonyms through the table, and a record that holds itself through another. -/
def ringEntries : List Entry :=
  let named (name : String) : CType := ⟨.named name, false, []⟩
  [{ name := "outer", body := .synonym (named "middle") }, { name := "middle", body := .synonym (named "inner") },
    { name := "inner", body := .synonym (.scalar (.plain .double)) },
    { name := "ring", body := .record { fields := [{ name := "link", type := named "link" }] } },
    { name := "link", body := .synonym (named "ring") }]

theorem definition_layout_eq_layoutOf_ring :
    let t : Table := ⟨.ofModel "" .ilp32, {}, ringEntries⟩
    (∃ D, t.resolve .c "outer" = .defined D ∧ D.layout = some ⟨8, 8⟩ ∧ D.layout = t.layoutOf .c "outer") ∧
    ∃ D, t.resolve .c "ring" = .defined D ∧ D.layout = none ∧ D.layout = t.layoutOf .c "ring" := by
  intro t
  exact ⟨⟨_, rfl, by decide, ((definition_layout_eq_layoutOf t .c).1 "outer" _ rfl).2⟩,
    ⟨_, rfl, by decide, ((definition_layout_eq_layoutOf t .c).1 "ring" _ rfl).2⟩⟩

end Table
end CAbi
