import Mathlib.Data.List.Pairwise
import CAbi.Table.Basic
/-!
# Insertion — what every sequence of insertions keeps

`Table.insert` looks at the entries of one name; what it keeps is a property of all pairs of entries
(`Table.Unambiguous`): two of one name never admit the same dialect.  From it every question about a name has one
answer.  `lookup`, which takes the first entry that fits, takes the only one (`lookup_eq_some_iff`), and the entries of
a name are one, or one for C and one for C++ (`entriesOf_cases`).
-/
namespace CAbi

/-- **Two entries that may stand in one table**: they differ in name, or no dialect admits both. -/
def Entry.Compatible (a b : Entry) : Prop :=
  a.name = b.name → ∀ d, ¬(a.scope.admits d = true ∧ b.scope.admits d = true)

theorem Entry.Compatible.symm {a b : Entry} (h : a.Compatible b) : b.Compatible a :=
  fun hn d hd => h hn.symm d hd.symm

instance : Std.Symm Entry.Compatible := ⟨fun _ _ h => h.symm⟩

theorem eraseDups_concat (names : List String) (name : String) :
    (names ++ [name]).eraseDups = names.eraseDups ++ if name ∈ names then [] else [name] := by
  rw [List.eraseDups_append]
  by_cases hmem : name ∈ names
  · simp [hmem, List.removeAll]
  · simp [hmem, List.removeAll, List.eraseDups_cons]

namespace Table

/-- **No name is defined twice for one dialect.** -/
def Unambiguous (t : Table) : Prop := t.entries.Pairwise Entry.Compatible

theorem conflict?_eq_none_iff {t : Table} {e : Entry} :
    t.conflict? e = none ↔ ∀ old ∈ t.entries, old.Compatible e := by
  unfold conflict? entriesOf
  rw [List.find?_eq_none]
  constructor
  · intro h old hold hn d hd
    refine h old (List.mem_filter.2 ⟨hold, by simpa using hn⟩) ?_
    exact (Scope.overlaps_iff _ _).2 ⟨d, hd⟩
  · intro h old hold hov
    obtain ⟨hmem, hn⟩ := List.mem_filter.1 hold
    obtain ⟨d, hd⟩ := (Scope.overlaps_iff _ _).1 hov
    exact h old hmem (by simpa using hn) d hd

/-- **An insertion succeeds exactly if the new entry is compatible with every old one**, and then adds it at the end. -/
theorem insert_eq_ok_iff {t t' : Table} {e : Entry} :
    t.insert e = .ok t' ↔ (∀ old ∈ t.entries, old.Compatible e) ∧ t' = { t with entries := t.entries ++ [e] } := by
  rw [← conflict?_eq_none_iff]
  unfold insert
  cases hc : t.conflict? e with
  | some old => simp
  | none =>
    simp only [Except.ok.injEq, true_and]
    exact eq_comm

theorem unambiguous_of_insert {t t' : Table} {e : Entry} (h : t.Unambiguous) (hi : t.insert e = .ok t') :
    t'.Unambiguous := by
  obtain ⟨hc, rfl⟩ := insert_eq_ok_iff.1 hi
  refine List.pairwise_append.2 ⟨h, List.pairwise_singleton _ _, fun old hold x hx => ?_⟩
  rw [List.mem_singleton.1 hx]
  exact hc old hold

/-! ## A sequence of insertions

Entries that conflict are left out, so the table is unambiguous whatever is offered, and complete exactly if nothing
was reported. -/

theorem insertAll_unambiguous (es : List Entry) {t : Table} (h : t.Unambiguous) : (t.insertAll es).1.Unambiguous := by
  induction es generalizing t with
  | nil => exact h
  | cons e es ih =>
    unfold insertAll
    split
    · rename_i t' ht
      exact ih (unambiguous_of_insert h ht)
    · exact ih h

theorem empty_unambiguous (target : Target) (guards : GuardScheme) : (empty target guards).Unambiguous :=
  List.Pairwise.nil

/-- **Nothing is reported exactly if the entries, old and new, are pairwise compatible.** -/
theorem insertAll_snd_eq_nil_iff (es : List Entry) {t : Table} (h : t.Unambiguous) :
    (t.insertAll es).2 = [] ↔ (t.entries ++ es).Pairwise Entry.Compatible := by
  induction es generalizing t with
  | nil => simpa [insertAll, Unambiguous] using h
  | cons e es ih =>
    unfold insertAll
    split
    · rename_i t' ht
      rw [ih (unambiguous_of_insert h ht)]
      obtain ⟨-, rfl⟩ := insert_eq_ok_iff.1 ht
      simp only [List.append_assoc, List.singleton_append]
    · -- a rejected entry conflicts with an old one, and both are in the list
      rename_i d hd
      simp only [reduceCtorEq, false_iff]
      intro hp
      have hc : ∀ old ∈ t.entries, old.Compatible e := fun old hold =>
        (List.pairwise_append.1 hp).2.2 old hold e List.mem_cons_self
      rw [insert_eq_ok_iff.2 ⟨hc, rfl⟩] at hd
      cases hd

theorem insertAll_of_snd_eq_nil (es : List Entry) (t : Table) (h : (t.insertAll es).2 = []) :
    (t.insertAll es).1 = { t with entries := t.entries ++ es } := by
  induction es generalizing t with
  | nil => simp [insertAll]
  | cons e es ih =>
    unfold insertAll at h ⊢
    cases ht : t.insert e with
    | error d => simp [ht] at h
    | ok t' =>
      obtain ⟨-, rfl⟩ := insert_eq_ok_iff.1 ht
      rw [ht] at h
      simpa using ih _ h

/-! ## Lookup in an unambiguous table -/

theorem mem_of_lookup_eq_some {t : Table} {name : String} {d : Dialect} {e : Entry} (h : t.lookup name d = some e) :
    e ∈ t.entries ∧ e.name = name ∧ e.scope.admits d = true := by
  have hp := List.find?_some h
  rw [Bool.and_eq_true, beq_iff_eq] at hp
  exact ⟨List.mem_of_find?_eq_some h, hp⟩

theorem lookup_isSome_iff {t : Table} {name : String} {d : Dialect} :
    (t.lookup name d).isSome = true ↔ ∃ e ∈ t.entries, e.name = name ∧ e.scope.admits d = true := by
  simp [lookup, List.find?_isSome]

theorem eq_of_admits {l : List Entry} (h : l.Pairwise Entry.Compatible) {a b : Entry} (ha : a ∈ l) (hb : b ∈ l)
    (hn : a.name = b.name) {d : Dialect} (hda : a.scope.admits d = true) (hdb : b.scope.admits d = true) : a = b := by
  by_contra hne
  exact h.forall ha hb hne hn d ⟨hda, hdb⟩

/-- **The entry of a name for a dialect is the one that is there.** -/
theorem lookup_eq_some_iff {t : Table} (h : t.Unambiguous) {name : String} {d : Dialect} {e : Entry} :
    t.lookup name d = some e ↔ e ∈ t.entries ∧ e.name = name ∧ e.scope.admits d = true := by
  refine ⟨mem_of_lookup_eq_some, fun ⟨hmem, hn, hd⟩ => ?_⟩
  obtain ⟨e', he'⟩ := Option.isSome_iff_exists.1 (lookup_isSome_iff.2 ⟨e, hmem, hn, hd⟩)
  obtain ⟨hmem', hn', hd'⟩ := mem_of_lookup_eq_some he'
  rw [he', eq_of_admits h hmem' hmem (hn'.trans hn.symm) hd' hd]

theorem mem_names {t : Table} {name : String} : name ∈ t.names ↔ ∃ e ∈ t.entries, e.name = name := by
  unfold names
  rw [List.mem_eraseDups, List.mem_map]

/-! ## The entries of a name -/

theorem mem_entriesOf {t : Table} {name : String} {e : Entry} :
    e ∈ t.entriesOf name ↔ e ∈ t.entries ∧ e.name = name := by
  unfold entriesOf
  rw [List.mem_filter, beq_iff_eq]

theorem lookup_eq_find?_entriesOf (t : Table) (name : String) (d : Dialect) :
    t.lookup name d = (t.entriesOf name).find? fun e => e.scope.admits d := by
  unfold lookup entriesOf
  rw [List.find?_filter]
  congr 1
  funext e
  by_cases hn : e.name = name <;> simp [hn]

/-- Of two scopes without a common dialect one is C and the other C++. -/
theorem scopes_of_disjoint {a b : Scope} (h : ∀ d, ¬(a.admits d = true ∧ b.admits d = true)) :
    a = .c ∧ b = .cxx ∨ a = .cxx ∧ b = .c := by
  have hc := h .c
  have hcxx := h .cxx
  cases a <;> cases b <;> simp_all [Scope.admits]

/-- **The entries of a name are one, or one for C and one for C++**: a third would share a dialect with one of the
first two. -/
theorem entriesOf_cases {t : Table} (h : t.Unambiguous) {name : String} (hn : name ∈ t.names) :
    (∃ e, t.entriesOf name = [e]) ∨
    ∃ a b, t.entriesOf name = [a, b] ∧ (a.scope = .c ∧ b.scope = .cxx ∨ a.scope = .cxx ∧ b.scope = .c) := by
  have hp : (t.entriesOf name).Pairwise Entry.Compatible := List.Pairwise.filter _ h
  have hname : ∀ e ∈ t.entriesOf name, e.name = name := fun e he => (mem_entriesOf.1 he).2
  obtain ⟨e, he, hen⟩ := mem_names.1 hn
  have hne : t.entriesOf name ≠ [] := List.ne_nil_of_mem (mem_entriesOf.2 ⟨he, hen⟩)
  have hscopes : ∀ x ∈ t.entriesOf name, ∀ y ∈ t.entriesOf name, x.Compatible y →
      x.scope = .c ∧ y.scope = .cxx ∨ x.scope = .cxx ∧ y.scope = .c := fun x hx y hy hxy =>
    scopes_of_disjoint (hxy ((hname x hx).trans (hname y hy).symm))
  generalize t.entriesOf name = l at hp hne hscopes
  match l, hne with
  | [e], _ => exact .inl ⟨e, rfl⟩
  | [a, b], _ =>
    have hab : a.Compatible b := List.rel_of_pairwise_cons hp List.mem_cons_self
    exact .inr ⟨a, b, rfl, hscopes a (by simp) b (by simp) hab⟩
  | a :: b :: c :: l, _ =>
    have hab := hscopes a (by simp) b (by simp) (List.rel_of_pairwise_cons hp (by simp))
    have hac := hscopes a (by simp) c (by simp) (List.rel_of_pairwise_cons hp (by simp))
    have hbc := hscopes b (by simp) c (by simp) (List.rel_of_pairwise_cons hp.of_cons (by simp))
    grind

end Table
end CAbi
