import CAbi.Proofs.EntriesByName
import CAbi.Table.Indexed
/-!
# NameIndex — the index of a table and its entries

An indexed table holds the same facts twice, and only `insert` keeps them together.  The invariant (`Consistent`) says
what the index is, given the entries: it has the names that some entry has, each with the positions of its entries in
order, and no name besides.

The room that `insert` makes for a new name is filled if the entry is accepted.  If it is refused, the entry it
conflicts with has the same name, so the name had room already and nothing was made (`insert_snd_of_error`).  In both
cases the invariant is kept, and the table does what the table without an index does (`insert_eq`).  What is then
answered from the index is what a search through the entries answers.
-/
namespace CAbi

namespace NameIndex

theorem reserve_of_isSome {i : NameIndex} {name : String} (h : (i.find? name).isSome = true) : i.reserve name = i := by
  unfold reserve
  rw [if_pos h]

theorem find?_reserve (i : NameIndex) (name n : String) :
    (i.reserve name).find? n = if n = name then some ((i.find? n).getD []) else i.find? n := by
  unfold reserve
  by_cases hsome : (i.find? name).isSome = true
  · rw [if_pos hsome]
    obtain ⟨slots, hslots⟩ := Option.isSome_iff_exists.1 hsome
    by_cases hn : n = name
    · rw [if_pos hn, hn, hslots]
      rfl
    · rw [if_neg hn]
  · rw [if_neg hsome]
    have hnone : i.slots.find? (fun p => p.1 == name) = none := by
      rw [Bool.not_eq_true, Option.isSome_eq_false_iff, Option.isNone_iff_eq_none] at hsome
      exact Option.map_eq_none_iff.1 hsome
    unfold find?
    rw [List.find?_append]
    by_cases hn : n = name
    · simp [hn, hnone]
    · have hne : ¬name = n := fun h => hn h.symm
      simp [hn, hne]

theorem find?_push (i : NameIndex) (name : String) (slot : Nat) (n : String) :
    (i.push name slot).find? n = if n = name then (i.find? n).map (· ++ [slot]) else i.find? n := by
  obtain ⟨slots⟩ := i
  unfold push find?
  induction slots with
  | nil => simp
  | cons p slots ih => by_cases hp : p.1 = name <;> by_cases hn : p.1 = n <;> grind

end NameIndex

theorem filterMap_findIdxs {α : Type} (p : α → Bool) (l : List α) :
    (l.findIdxs p).filterMap (fun i => l[i]?) = l.filter p := by
  induction l with
  | nil => rfl
  | cons a l ih =>
    rw [List.findIdxs_cons, List.findIdxs_start, List.filter_cons]
    have hrest : ((l.findIdxs p).map (· + (0 + 1))).filterMap (fun i => (a :: l)[i]?) = l.filter p := by
      rw [List.filterMap_map, ← ih]
      rfl
    cases p a with
    | true =>
      have hhead : (a :: l)[0]? = some a := rfl
      rw [if_pos rfl, if_pos rfl, List.filterMap_cons, hhead, hrest]
    | false => rw [if_neg Bool.false_ne_true, if_neg Bool.false_ne_true, hrest]

/-- **Where the entries of a name stand.** -/
def Table.positionsOf (t : Table) (name : String) : List Nat := t.entries.findIdxs fun e => e.name == name

namespace IndexedTable

variable {t : IndexedTable}

theorem entriesAt_positionsOf (t : IndexedTable) (name : String) :
    t.entriesAt (t.positionsOf name) = t.entriesOf name :=
  filterMap_findIdxs _ t.entries

theorem positionsOf_eq_nil_iff {name : String} : t.positionsOf name = [] ↔ t.entriesOf name = [] := by
  rw [Table.entriesOf_eq_nil_iff]
  simp [Table.positionsOf, List.findIdxs_eq_nil_iff]

/-- **The index says where the entries stand**, of every name that has one and of no other. -/
structure Consistent (t : IndexedTable) : Prop where
  index : ∀ name, t.index.find? name = if t.positionsOf name = [] then none else some (t.positionsOf name)
  unambiguous : t.Unambiguous

/-! ## One insertion -/

/-- **A refused entry leaves the table as it was**: what it conflicts with has its name, so the name had room. -/
theorem insert_snd_of_error {e : Entry} {defect : Defect} (h : (t.insert e).1 = .error defect) :
    (t.insert e).2 = t := by
  unfold insert at h ⊢
  dsimp only at h ⊢
  split at h
  · rename_i old hold
    have hroom : (t.index.find? e.name).isSome = true := by
      by_contra hnone
      rw [Bool.not_eq_true, Option.isSome_eq_false_iff, Option.isNone_iff_eq_none] at hnone
      rw [NameIndex.find?_reserve, if_pos rfl, hnone] at hold
      cases hold
    rw [NameIndex.reserve_of_isSome hroom]
  · cases h

namespace Consistent

theorem getD_find? (h : t.Consistent) (name : String) : (t.index.find? name).getD [] = t.positionsOf name := by
  rw [h.index]
  split
  · rename_i hnil
    rw [hnil]
    rfl
  · rfl

theorem conflict?_eq (h : t.Consistent) (e : Entry) :
    ((t.entriesAt (((t.index.reserve e.name).find? e.name).getD [])).find? fun old => old.scope.overlaps e.scope) =
      t.conflict? e := by
  rw [NameIndex.find?_reserve, if_pos rfl, Option.getD_some, h.getD_find?, entriesAt_positionsOf]
  rfl

/-- **An insertion does what it does without an index**, and either way the table is kept or grows by the entry. -/
theorem insert_eq (h : t.Consistent) (e : Entry) :
    t.insert e =
      match t.toTable.insert e with
      | .error defect => (.error defect, t)
      | .ok t' => (.ok (), ⟨t', (t.index.reserve e.name).push e.name t.entries.length⟩) := by
  cases hc : t.conflict? e with
  | some old =>
    have hfst : (t.insert e).1 = .error (.duplicate e.name old.scope e.scope) := by
      simp only [insert, h.conflict?_eq, hc]
    rw [Prod.ext_iff]
    simp only [Table.insert, hc]
    exact ⟨hfst, insert_snd_of_error hfst⟩
  | none => simp only [insert, Table.insert, h.conflict?_eq, hc]

theorem concat (h : t.Consistent) {e : Entry} (hcompatible : ∀ old ∈ t.entries, old.Compatible e) :
    Consistent ⟨{ t.toTable with entries := t.entries ++ [e] },
      (t.index.reserve e.name).push e.name t.entries.length⟩ where
  index name := by
    have hpositions : Table.positionsOf { t.toTable with entries := t.entries ++ [e] } name =
        t.positionsOf name ++ if e.name = name then [t.entries.length] else [] := by
      simp [Table.positionsOf, List.findIdxs_append]
    dsimp only
    rw [hpositions, NameIndex.find?_push, NameIndex.find?_reserve, h.getD_find?]
    by_cases hn : name = e.name
    · simp [hn]
    · have hne : ¬e.name = name := fun h => hn h.symm
      simp [hn, hne, h.index]
  unambiguous := Table.unambiguous_of_insert h.unambiguous (Table.insert_eq_ok_iff.2 ⟨hcompatible, rfl⟩)

/-- **Both outcomes of an insertion keep the index.** -/
theorem insert (h : t.Consistent) (e : Entry) : (t.insert e).2.Consistent := by
  rw [h.insert_eq]
  cases hi : t.toTable.insert e with
  | error defect => exact h
  | ok t' =>
    obtain ⟨hcompatible, rfl⟩ := Table.insert_eq_ok_iff.1 hi
    exact h.concat hcompatible

/-! ## Any insertions -/

theorem insertAll (h : t.Consistent) (es : List Entry) : (t.insertAll es).1.Consistent := by
  induction es generalizing t with
  | nil => exact h
  | cons e es ih =>
    have hstep := h.insert e
    unfold IndexedTable.insertAll
    split
    · rename_i t' hi
      rw [hi] at hstep
      exact ih hstep
    · rename_i defect t' hi
      rw [hi] at hstep
      exact ih hstep

/-- **With and without an index, the same entries are stored and the same defects reported.** -/
theorem insertAll_eq (h : t.Consistent) (es : List Entry) :
    ((t.insertAll es).1.toTable, (t.insertAll es).2) = t.toTable.insertAll es := by
  induction es generalizing t with
  | nil => rfl
  | cons e es ih =>
    have hstep := h.insert e
    unfold IndexedTable.insertAll Table.insertAll
    rw [h.insert_eq] at hstep ⊢
    cases hi : t.toTable.insert e with
    | error defect => rw [← ih h]
    | ok t' =>
      rw [hi] at hstep
      exact ih hstep

/-! ## Questions about a name -/

theorem contains_eq (h : t.Consistent) (name : String) : t.contains name = t.toTable.contains name := by
  have hstored : t.positionsOf name = [] ↔ ¬t.toTable.contains name = true := by
    rw [positionsOf_eq_nil_iff, Table.entriesOf_eq_nil_iff, Table.contains_iff]
    simp
  unfold IndexedTable.contains
  rw [h.index, Bool.eq_iff_iff]
  split
  · rename_i hnil
    simp [hstored.1 hnil]
  · rename_i hne
    simp [not_not.1 (mt hstored.2 hne)]

theorem lookup_eq (h : t.Consistent) (name : String) (d : Dialect) : t.lookup name d = t.toTable.lookup name d := by
  rw [Table.lookup_eq_find?_entriesOf]
  unfold IndexedTable.lookup
  rw [h.index]
  split
  · rename_i hnil
    rw [positionsOf_eq_nil_iff.1 hnil]
    rfl
  · rw [Option.bind_some, entriesAt_positionsOf]

theorem scopeOf_eq (h : t.Consistent) (name : String) : t.scopeOf name = t.toTable.scopeOf name := by
  have hentries := t.entriesAt_positionsOf name
  have hlength : (t.positionsOf name).length = (t.entriesOf name).length := by
    simp [Table.positionsOf, Table.entriesOf, List.countP_eq_length_filter]
  unfold IndexedTable.scopeOf Table.scopeOf
  rw [h.index]
  -- as many entries as positions: none, one, or a scope that does not look at them
  cases hslots : t.positionsOf name with
  | nil =>
    rw [positionsOf_eq_nil_iff.1 hslots]
    rfl
  | cons slot slots =>
    rw [hslots] at hentries hlength
    cases slots with
    | nil =>
      obtain ⟨e, he⟩ := List.length_eq_one_iff.1 hlength.symm
      have hat : t.entries[slot]? = some e := by
        rw [he] at hentries
        cases hslot : t.entries[slot]? <;> simp_all [entriesAt]
      simp [he, hat]
    | cons slot' slots =>
      match he : t.entriesOf name with
      | [] => simp [he] at hlength
      | [_] => simp [he] at hlength
      | _ :: _ :: _ => simp

theorem groups_eq (h : t.Consistent) : t.groups = t.toTable.groups := by
  unfold IndexedTable.groups Table.groups
  refine List.map_congr_left fun name _ => ?_
  rw [h.getD_find?, entriesAt_positionsOf]

end Consistent

/-- **Every question about a name has the answer the entries give**, and no position leads outside them. -/
structure Coherent (t : IndexedTable) : Prop where
  /-- A name is in the index exactly if an entry has it, and then with the positions of its entries. -/
  index : ∀ name slots, t.index.find? name = some slots ↔ slots ≠ [] ∧ slots = t.positionsOf name
  inside : ∀ name slots, t.index.find? name = some slots → ∀ slot ∈ slots, slot < t.size
  /-- At most one entry of a name admits a dialect, and it is the one that is found. -/
  lookup : ∀ name d, t.entries.filter (fun e => e.name == name && e.scope.admits d) = (t.lookup name d).toList
  contains : ∀ name, t.contains name = true ↔ ∃ e ∈ t.entries, e.name = name
  scopeOf_none : ∀ name, t.scopeOf name = none ↔ ∀ e ∈ t.entries, e.name ≠ name
  /-- The scope of a name is the dialects it is found in. -/
  scopeOf_some : ∀ name s, t.scopeOf name = some s → ∀ d, s.admits d = true ↔ (t.lookup name d).isSome = true
  mem_names : ∀ name, name ∈ t.names ↔ ∃ e ∈ t.entries, e.name = name
  names_nodup : t.names.Nodup
  /-- The names stand in the order of their first entries. -/
  names_order : t.names.Pairwise fun a b => (t.entries.map (·.name)).idxOf a < (t.entries.map (·.name)).idxOf b
  groups_perm : t.groups.flatten.Perm t.entries
  groups_apart : t.groups.Pairwise fun g g' => ∀ a ∈ g, ∀ b ∈ g', a.name ≠ b.name
  groups_shape : ∀ g ∈ t.groups, (∃ e, g = [e]) ∨
    ∃ a b, g = [a, b] ∧ a.name = b.name ∧ (a.scope = .c ∧ b.scope = .cxx ∨ a.scope = .cxx ∧ b.scope = .c)

theorem Consistent.find?_eq_some_iff (h : t.Consistent) (name : String) (slots : List Nat) :
    t.index.find? name = some slots ↔ slots ≠ [] ∧ slots = t.positionsOf name := by
  rw [h.index]
  split
  · rename_i hnil
    rw [hnil]
    simp
  · rename_i hne
    rw [Option.some.injEq]
    constructor
    · rintro rfl
      exact ⟨hne, rfl⟩
    · rintro ⟨-, rfl⟩
      rfl

theorem Consistent.coherent (h : t.Consistent) : t.Coherent where
  index := h.find?_eq_some_iff
  inside name slots hslots slot hslot := by
    rw [((h.find?_eq_some_iff name slots).1 hslots).2] at hslot
    exact List.lt_add_of_mem_findIdxs slot hslot
  lookup name d := by rw [h.lookup_eq]; exact Table.filter_eq_lookup h.unambiguous name d
  contains name := by rw [h.contains_eq]; exact Table.contains_iff
  scopeOf_none name := by rw [h.scopeOf_eq]; exact Table.scopeOf_eq_none_iff
  scopeOf_some name s hs d := by
    rw [h.scopeOf_eq] at hs
    rw [h.lookup_eq]
    exact Table.admits_scopeOf_iff h.unambiguous hs d
  mem_names _ := Table.mem_names
  names_nodup := t.names_nodup
  names_order := t.names_order
  groups_perm := by rw [h.groups_eq]; exact t.groups_flatten_perm
  groups_apart := by rw [h.groups_eq]; exact t.groups_apart
  groups_shape g hg := by
    rw [h.groups_eq] at hg
    exact Table.groups_shape h.unambiguous hg

theorem empty_consistent (target : Target) (guards : GuardScheme) : (empty target guards).Consistent :=
  ⟨fun _ => rfl, Table.empty_unambiguous target guards⟩

/-- **After any insertions a table is coherent, and a refused entry leaves no trace**, in the entries or in the index.
An accepted entry stands at the end. -/
theorem coherent_after_insertions (target : Target) (guards : GuardScheme) (offers : List Entry) :
    let t := ((empty target guards).insertAll offers).1
    t.Coherent ∧
    ∀ e,
      (∀ defect, (t.insert e).1 = .error defect → (t.insert e).2 = t) ∧
      ((t.insert e).1 = .ok () → (t.insert e).2.entries = t.entries ++ [e]) := by
  intro t
  have hconsistent : t.Consistent := (empty_consistent target guards).insertAll offers
  refine ⟨hconsistent.coherent, fun e => ⟨fun defect => insert_snd_of_error, fun hok => ?_⟩⟩
  rw [hconsistent.insert_eq] at hok ⊢
  cases hi : t.toTable.insert e with
  | error defect =>
    rw [hi] at hok
    cases hok
  | ok t' =>
    obtain ⟨-, rfl⟩ := Table.insert_eq_ok_iff.1 hi
    rfl

/-- A name split between the dialects is offered once more for both, and what the index has for it stays. -/
theorem coherent_after_insertions_split :
    let t := ((empty (.ofModel "" .lp64) {}).insertAll Table.splitOffers).1
    let offer : Entry := { name := "thread", body := .synonym ⟨.void, false, []⟩ }
    t.index.find? "thread" = some [0, 2] ∧ (t.insert offer).1 = .error (.duplicate "thread" .cxx .any) ∧
      (t.insert offer).2 = t ∧ (t.insert { offer with name := "task" }).2.index.find? "task" = some [3] ∧
      (t.insert { offer with name := "task" }).2.entries = t.entries ++ [{ offer with name := "task" }] := by
  intro t offer
  have hspec := coherent_after_insertions (.ofModel "" .lp64) {} Table.splitOffers
  have hrefused : (t.insert offer).1 = .error (.duplicate "thread" .cxx .any) := by decide +kernel
  have haccepted : (t.insert { offer with name := "task" }).1 = .ok () := by decide +kernel
  exact ⟨by decide +kernel, hrefused, (hspec.2 offer).1 _ hrefused, by decide +kernel, (hspec.2 _).2 haccepted⟩

end IndexedTable
end CAbi
