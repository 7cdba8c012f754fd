import CAbi.Proofs.NameIndex
import CAbi.Proofs.References
/-!
# Acceptance — exactly the well-formed tables pass the checks

`Table.ofEntries` reports defects, one by one, each found by a computation of its own.  `WellFormed` says what a table
should be like, in terms of the entries alone: nothing in it searches, counts or looks up.  The two agree, check by
check:

- the target has no zeros (`Target.defects_eq_nil_iff`);
- bodies have members, tags and lengths where they need them (`Entry.bodyDefects_eq_nil_iff`);
- references lead to entries and never back (`Table.referenceDefects_eq_nil_iff`).
-/
namespace CAbi

/-! ## The target -/

/-- **A target under which every scalar, pointer and compiler type has a size and an alignment.** -/
structure Target.Sound (t : Target) : Prop where
  sizes : ∀ kind, t.sizeOf kind ≠ 0
  pointer : t.widths.pointer ≠ 0
  overrides : ∀ kind, t.override? kind ≠ some 0
  builtins : ∀ b ∈ t.builtins, b.size ≠ 0 ∧ b.align ≠ 0

theorem Target.sizeOf_ne_zero_iff (t : Target) :
    (∀ kind, t.sizeOf kind ≠ 0) ∧ t.widths.pointer ≠ 0 ↔ ∀ p ∈ t.widths.named, p.2 ≠ 0 := by
  constructor
  · rintro ⟨hs, hp⟩
    simp only [Widths.named, List.forall_mem_cons]
    exact ⟨hs .short, hs .int, hs .long, hs .longLong, hp, hs .float, hs .double, hs .longDouble, by simp⟩
  · intro h
    simp only [Widths.named, List.forall_mem_cons] at h
    obtain ⟨hshort, hint, hlong, hlongLong, hpointer, hfloat, hdouble, hlongDouble, -⟩ := h
    have hplain : ∀ p, t.plainSize p ≠ 0 := fun p => by cases p <;> assumption
    refine ⟨fun kind => ?_, hpointer⟩
    cases kind with
    | char => exact (by decide : (1 : UInt32) ≠ 0)
    | addr => exact hplain _
    | int64 => exact hplain _
    | reg => exact hplain _
    | _ => assumption

theorem Target.override_ne_zero_iff (t : Target) :
    (∀ kind, t.override? kind ≠ some 0) ↔ ∀ p ∈ t.align.named, p.2 ≠ some 0 := by
  constructor
  · intro h
    simp only [Alignments.named, List.forall_mem_cons]
    exact ⟨h .longLong, h .double, h .longDouble, by simp⟩
  · intro h
    simp only [Alignments.named, List.forall_mem_cons] at h
    obtain ⟨hlongLong, hdouble, hlongDouble, -⟩ := h
    intro kind
    cases kind with
    | longLong => exact hlongLong
    | double => exact hdouble
    | longDouble => exact hlongDouble
    | _ => simp [Target.override?]

theorem Target.defects_eq_nil_iff (t : Target) : t.defects = [] ↔ t.Sound := by
  unfold Target.defects
  rw [List.append_eq_nil_iff, List.append_eq_nil_iff, List.filterMap_eq_nil_iff, List.filterMap_eq_nil_iff,
    List.filterMap_eq_nil_iff]
  have hwidths := t.sizeOf_ne_zero_iff
  have haligns := t.override_ne_zero_iff
  simp only [Prod.forall, ite_eq_right_iff, reduceCtorEq, imp_false, not_or, ← ne_eq] at hwidths haligns ⊢
  rw [← hwidths, ← haligns]
  constructor
  · rintro ⟨⟨⟨hs, hp⟩, ho⟩, hb⟩
    exact ⟨hs, hp, ho, hb⟩
  · rintro ⟨hs, hp, ho, hb⟩
    exact ⟨⟨⟨hs, hp⟩, ho⟩, hb⟩

/-! ## Bodies -/

/-- **A body that declares something**: a record has fields, a tag if it is declared by its tag alone, and no field
that is an array of nothing; a handle has views, each an array of a positive number of elements. -/
def Body.WellShaped : Body → Prop
  | .synonym _ => True
  | .record r =>
    r.fields ≠ [] ∧ (r.tagOnly = true → r.tag ≠ none) ∧
      ∀ f ∈ r.fields, f.length ≠ some (.count 0) ∧ f.length ≠ some (.bytes 0)
  | .opaqueHandle views => views ≠ [] ∧ ∀ v ∈ views, ∃ n, 0 < n ∧ v.length = some (.count n)

theorem Field.isZeroLength_eq_false_iff (f : Field) :
    f.isZeroLength = false ↔ f.length ≠ some (.count 0) ∧ f.length ≠ some (.bytes 0) := by
  unfold Field.isZeroLength
  split <;> rename_i h <;> simp [h]

theorem Field.hasPositiveCount_iff (f : Field) :
    f.hasPositiveCount = true ↔ ∃ n, 0 < n ∧ f.length = some (.count n) := by
  unfold Field.hasPositiveCount
  split
  · rename_i n h
    rw [bne_iff_ne, h]
    constructor
    · intro hn
      exact ⟨n, UInt32.pos_iff_ne_zero.2 hn, rfl⟩
    · rintro ⟨m, hm, heq⟩
      cases heq
      exact UInt32.pos_iff_ne_zero.1 hm
  · rename_i h
    simp only [Bool.false_eq_true, false_iff]
    rintro ⟨n, -, heq⟩
    exact h n heq

theorem Entry.bodyDefects_eq_nil_iff (e : Entry) : e.bodyDefects = [] ↔ e.body.WellShaped := by
  unfold Entry.bodyDefects
  cases e.body with
  | synonym type => simp [Body.WellShaped]
  | record r =>
    simp only [Body.WellShaped, List.append_eq_nil_iff, List.map_eq_nil_iff, List.filter_eq_nil_iff]
    have htag : (if r.tagOnly && r.tag.isNone then [Defect.tagOnlyWithoutTag e.name] else []) = [] ↔
        (r.tagOnly = true → r.tag ≠ none) := by
      cases r.tagOnly <;> cases r.tag <;> simp
    have hfields : (if r.fields.isEmpty then [Defect.noFields e.name] else []) = [] ↔ r.fields ≠ [] := by
      cases r.fields <;> simp
    have hlengths : (∀ f ∈ r.fields, ¬f.isZeroLength = true) ↔
        ∀ f ∈ r.fields, f.length ≠ some (.count 0) ∧ f.length ≠ some (.bytes 0) :=
      forall₂_congr fun f _ => by rw [Bool.not_eq_true, f.isZeroLength_eq_false_iff]
    rw [htag, hfields, hlengths]
    tauto
  | opaqueHandle views =>
    simp only [Body.WellShaped, List.append_eq_nil_iff, List.map_eq_nil_iff, List.filter_eq_nil_iff]
    have hviews : (if views.isEmpty then [Defect.noViews e.name] else []) = [] ↔ views ≠ [] := by
      cases views <;> simp
    have hcounts : (∀ v ∈ views, ¬(!v.hasPositiveCount) = true) ↔
        ∀ v ∈ views, ∃ n, 0 < n ∧ v.length = some (.count n) :=
      forall₂_congr fun v _ => by rw [← v.hasPositiveCount_iff]; simp
    rw [hviews, hcounts]

/-! ## References -/

/-- **Every reference leads to an entry for the dialect it stands in.** -/
def Resolved (entries : List Entry) : Prop :=
  ∀ d, ∀ e ∈ entries, e.scope.admits d = true → ∀ r ∈ e.body.references,
    ∃ e' ∈ entries, e'.name = r ∧ e'.scope.admits d = true

/-- **No chain of references, of whatever length, leads back to where it started.** -/
def Acyclic (entries : List Entry) : Prop := ∀ d name, ¬Relation.TransGen (Refers entries d) name name

theorem Table.referenceDefect?_eq_none_iff (t : Table) (e : Entry) (d : Dialect) (r : String) :
    t.referenceDefect? e d r = none ↔ (t.lookup r d).isSome = true ∧ t.reaches d r e.name = false := by
  unfold Table.referenceDefect?
  cases t.lookup r d <;> cases t.reaches d r e.name <;> simp

theorem Table.referenceDefects_eq_nil_iff (t : Table) (e : Entry) :
    t.referenceDefects e = [] ↔ ∀ d, e.scope.admits d = true → ∀ r ∈ e.body.references,
      (t.lookup r d).isSome = true ∧ t.reaches d r e.name = false := by
  unfold Table.referenceDefects
  rw [List.flatMap_eq_nil_iff]
  constructor
  · intro h d hd r hr
    have hnil := h d (List.mem_filter.2 ⟨Dialect.mem_all d, hd⟩)
    exact (t.referenceDefect?_eq_none_iff e d r).1 (List.filterMap_eq_nil_iff.1 hnil r hr)
  · intro h d hd
    obtain ⟨-, hd⟩ := List.mem_filter.1 hd
    exact List.filterMap_eq_nil_iff.2 fun r hr => (t.referenceDefect?_eq_none_iff e d r).2 (h d hd r hr)

/-- **The references of all entries pass exactly if they are resolved and acyclic.**  A cycle passes through some entry,
and is found at the reference with which it leaves that entry. -/
theorem Table.forall_referenceDefects_eq_nil_iff {t : Table} (h : t.Unambiguous) :
    (∀ e ∈ t.entries, t.referenceDefects e = []) ↔ Resolved t.entries ∧ Acyclic t.entries := by
  simp only [Table.referenceDefects_eq_nil_iff]
  constructor
  · intro hrefs
    refine ⟨fun d e he hd r hr => Table.lookup_isSome_iff.1 (hrefs e he d hd r hr).1, fun d name hcycle => ?_⟩
    obtain ⟨r, ⟨e, he, rfl, hd, hr⟩, hback⟩ := Relation.TransGen.head'_iff.1 hcycle
    have hnot := (hrefs e he d hd r hr).2
    rw [(Table.reaches_iff_refers h).2 hback] at hnot
    cases hnot
  · rintro ⟨hres, hacyc⟩ e he d hd r hr
    refine ⟨Table.lookup_isSome_iff.2 (hres d e he hd r hr), Bool.eq_false_iff.2 fun hreach => ?_⟩
    exact hacyc d e.name (Relation.TransGen.head' ⟨e, he, rfl, hd, hr⟩ ((Table.reaches_iff_refers h).1 hreach))

/-! ## The whole table -/

/-- **A table as it should be.** -/
structure WellFormed (target : Target) (guards : GuardScheme) (entries : List Entry) : Prop where
  guards : guards.defects = []
  target : target.Sound
  unambiguous : entries.Pairwise Entry.Compatible
  bodies : ∀ e ∈ entries, e.body.WellShaped
  resolved : Resolved entries
  acyclic : Acyclic entries

namespace Table

theorem defects_eq_nil_iff {t : Table} (h : t.Unambiguous) :
    t.defects = [] ↔ WellFormed t.target t.guards t.entries := by
  unfold defects
  simp only [List.append_eq_nil_iff, List.flatMap_eq_nil_iff, t.target.defects_eq_nil_iff,
    Entry.bodyDefects_eq_nil_iff]
  constructor
  · rintro ⟨⟨hg, ht⟩, he⟩
    obtain ⟨hres, hacyc⟩ := (forall_referenceDefects_eq_nil_iff h).1 fun e hmem => (he e hmem).2
    exact ⟨hg, ht, h, fun e hmem => (he e hmem).1, hres, hacyc⟩
  · intro hw
    have hrefs := (forall_referenceDefects_eq_nil_iff h).2 ⟨hw.resolved, hw.acyclic⟩
    exact ⟨⟨hw.guards, hw.target⟩, fun e hmem => ⟨hw.bodies e hmem, hrefs e hmem⟩⟩

theorem ofEntries_eq_ok {target : Target} {guards : GuardScheme} {entries : List Entry} {t : Table} :
    ofEntries target guards entries = .ok t ↔
      ((empty target guards).insertAll entries).2 = [] ∧ ((empty target guards).insertAll entries).1.defects = [] ∧
        t = ((empty target guards).insertAll entries).1 := by
  unfold ofEntries
  have hindexed : (((IndexedTable.empty target guards).insertAll entries).1.toTable,
      ((IndexedTable.empty target guards).insertAll entries).2) = (empty target guards).insertAll entries :=
    (IndexedTable.empty_consistent target guards).insertAll_eq entries
  rw [← hindexed]
  obtain ⟨t', conflicts⟩ := (IndexedTable.empty target guards).insertAll entries
  dsimp only
  split
  · rename_i hnil
    obtain ⟨hc, hd⟩ := List.append_eq_nil_iff.1 hnil
    simp only [hc, hd, Except.ok.injEq, true_and]
    exact eq_comm
  · rename_i hne
    simp only [reduceCtorEq, false_iff]
    rintro ⟨hc, hd, -⟩
    exact hne (List.append_eq_nil_iff.2 ⟨hc, hd⟩)

/-- **A table that passed the checks is as it should be.** -/
theorem wellFormed_of_ofEntries {target : Target} {guards : GuardScheme} {entries : List Entry} {t : Table}
    (h : ofEntries target guards entries = .ok t) : WellFormed t.target t.guards t.entries := by
  obtain ⟨-, hdefects, rfl⟩ := ofEntries_eq_ok.1 h
  exact (defects_eq_nil_iff (insertAll_unambiguous entries (empty_unambiguous target guards))).1 hdefects

theorem eq_of_ofEntries {target : Target} {guards : GuardScheme} {entries : List Entry} {t : Table}
    (h : ofEntries target guards entries = .ok t) : t = ⟨target, guards, entries⟩ := by
  obtain ⟨hconflicts, -, rfl⟩ := ofEntries_eq_ok.1 h
  exact insertAll_of_snd_eq_nil entries _ hconflicts

/-- **A table that is as it should be passes the checks.** -/
theorem ofEntries_of_wellFormed {target : Target} {guards : GuardScheme} {entries : List Entry}
    (h : WellFormed target guards entries) : ofEntries target guards entries = .ok ⟨target, guards, entries⟩ := by
  have hconflicts : ((empty target guards).insertAll entries).2 = [] :=
    (insertAll_snd_eq_nil_iff entries (empty_unambiguous target guards)).2 h.unambiguous
  have hall : ((empty target guards).insertAll entries).1 = ⟨target, guards, entries⟩ :=
    insertAll_of_snd_eq_nil entries _ hconflicts
  have hdefects : defects ⟨target, guards, entries⟩ = [] :=
    (defects_eq_nil_iff (t := ⟨target, guards, entries⟩) h.unambiguous).2 h
  exact ofEntries_eq_ok.2 ⟨hconflicts, by rw [hall]; exact hdefects, hall.symm⟩

/-- **Exactly the well-formed tables are accepted**, and an accepted table has the entries it was made of, in their
order, with the target and the guards given. -/
theorem ofEntries_eq_ok_iff (target : Target) (guards : GuardScheme) (entries : List Entry) (t : Table) :
    ofEntries target guards entries = .ok t ↔ WellFormed target guards entries ∧ t = ⟨target, guards, entries⟩ := by
  have hempty := empty_unambiguous target guards
  have hsnd : ((empty target guards).insertAll entries).2 = [] ↔ entries.Pairwise Entry.Compatible :=
    insertAll_snd_eq_nil_iff entries hempty
  have hfst : entries.Pairwise Entry.Compatible →
      ((empty target guards).insertAll entries).1 = ⟨target, guards, entries⟩ := fun hpair =>
    insertAll_of_snd_eq_nil entries _ (hsnd.2 hpair)
  have hdefects : entries.Pairwise Entry.Compatible →
      (defects ⟨target, guards, entries⟩ = [] ↔ WellFormed target guards entries) := fun hpair =>
    defects_eq_nil_iff (t := ⟨target, guards, entries⟩) hpair
  rw [ofEntries_eq_ok, hsnd]
  constructor
  · rintro ⟨hpair, hdef, rfl⟩
    rw [hfst hpair] at hdef ⊢
    exact ⟨(hdefects hpair).1 hdef, rfl⟩
  · rintro ⟨hw, rfl⟩
    rw [hfst hw.unambiguous]
    exact ⟨hw.unambiguous, (hdefects hw.unambiguous).2 hw, rfl⟩

end Table
end CAbi
