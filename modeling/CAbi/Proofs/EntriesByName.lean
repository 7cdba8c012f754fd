import Mathlib.Data.List.Induction
import CAbi.Proofs.Insertion
/-!
# EntriesByName — what a table says about a name

A table is asked for the entry of a name in a dialect, for the dialects of a name, for its names and for its entries
name by name.  Each answer is computed by a search of its own, and each takes for granted that a name has one entry, or
one for C and one for C++.  What the answers mean is said here in terms of the entries, for tables that are unambiguous
where that is needed.
-/
namespace CAbi

/-! ## Lists by first occurrence -/

/-- **Without repetitions, the elements stand in the order of their first occurrence.** -/
theorem eraseDups_pairwise_idxOf (names : List String) :
    names.eraseDups.Pairwise fun a b => names.idxOf a < names.idxOf b := by
  induction names using List.reverseRecOn with
  | nil => exact List.Pairwise.nil
  | append_singleton names name ih =>
    have hkeep : ∀ a ∈ names, (names ++ [name]).idxOf a = names.idxOf a := fun a ha => by
      rw [List.idxOf_append, if_pos ha]
    have hold : names.eraseDups.Pairwise fun a b => (names ++ [name]).idxOf a < (names ++ [name]).idxOf b := by
      refine ih.imp_of_mem fun {a b} ha hb hab => ?_
      rw [hkeep a (List.mem_eraseDups.1 ha), hkeep b (List.mem_eraseDups.1 hb)]
      exact hab
    rw [eraseDups_concat]
    by_cases hmem : name ∈ names
    · rw [if_pos hmem, List.append_nil]
      exact hold
    · rw [if_neg hmem]
      refine List.pairwise_append.2 ⟨hold, List.pairwise_singleton _ _, fun a ha b hb => ?_⟩
      -- the new name comes after everything that was there
      have hlt : names.idxOf a < names.length := List.idxOf_lt_length_iff.2 (List.mem_eraseDups.1 ha)
      rw [hkeep a (List.mem_eraseDups.1 ha), List.mem_singleton.1 hb, List.idxOf_append, if_neg hmem]
      omega

/-- **A list taken apart by a key holds what the list holds.** -/
theorem flatMap_filter_perm {α : Type} (key : α → String) : ∀ l : List α,
    ((l.map key).eraseDups.flatMap fun k => l.filter fun x => key x == k).Perm l
  | [] => List.Perm.refl []
  | a :: as => by
    -- the elements with another key than the first are a shorter list, with the other keys
    have hothers : (a :: as).filter (fun x => !(key x == key a)) = as.filter fun x => !(key x == key a) := by simp
    have hkeys : ((a :: as).map key).eraseDups =
        key a :: ((as.filter fun x => !(key x == key a)).map key).eraseDups := by
      rw [List.map_cons, List.eraseDups_cons, List.filter_map]
      rfl
    have hrest : ∀ k ∈ ((as.filter fun x => !(key x == key a)).map key).eraseDups,
        (a :: as).filter (fun x => key x == k) = (as.filter fun x => !(key x == key a)).filter fun x => key x == k := by
      intro k hk
      obtain ⟨x, hx, rfl⟩ := List.mem_map.1 (List.mem_eraseDups.1 hk)
      have hne : key x ≠ key a := by simpa using (List.mem_filter.1 hx).2
      rw [← hothers, List.filter_filter]
      refine List.filter_congr fun y _ => ?_
      by_cases hy : key y = key x
      · simp [hy, hne]
      · simp [hy]
    rw [hkeys, List.flatMap_cons, List.flatMap_def, List.map_congr_left hrest, ← List.flatMap_def]
    refine (List.Perm.append_left _ (flatMap_filter_perm key (as.filter fun x => !(key x == key a)))).trans ?_
    rw [← hothers]
    exact List.filter_append_perm (fun x => key x == key a) (a :: as)
termination_by l => l.length
decreasing_by exact Nat.lt_succ_of_le (List.length_filter_le _ as)

namespace Table

variable {t : Table}

/-! ## The entry and the scope of a name -/

theorem filter_eq_lookup (h : t.Unambiguous) (name : String) (d : Dialect) :
    t.entries.filter (fun e => e.name == name && e.scope.admits d) = (t.lookup name d).toList := by
  unfold Unambiguous at h
  unfold lookup
  generalize t.entries = es at h
  induction es with
  | nil => rfl
  | cons e es ih =>
    cases he : e.name == name && e.scope.admits d with
    | true =>
      have hnone : es.filter (fun e => e.name == name && e.scope.admits d) = [] := by
        refine List.filter_eq_nil_iff.2 fun e' hmem he' => ?_
        simp only [Bool.and_eq_true, beq_iff_eq] at he he'
        exact List.rel_of_pairwise_cons h hmem (he.1.trans he'.1.symm) d ⟨he.2, he'.2⟩
      rw [List.filter_cons, List.find?_cons, he, hnone]
      rfl
    | false =>
      rw [List.filter_cons, List.find?_cons, he]
      exact ih h.of_cons

theorem contains_iff {name : String} : t.contains name = true ↔ ∃ e ∈ t.entries, e.name = name := by
  simp [contains]

theorem entriesOf_eq_nil_iff {name : String} : t.entriesOf name = [] ↔ ∀ e ∈ t.entries, e.name ≠ name := by
  unfold entriesOf
  rw [List.filter_eq_nil_iff]
  simp only [beq_iff_eq, ne_eq]

theorem scopeOf_eq_none_iff {name : String} : t.scopeOf name = none ↔ ∀ e ∈ t.entries, e.name ≠ name := by
  rw [← entriesOf_eq_nil_iff]
  unfold scopeOf
  split <;> simp_all

/-- **The scope of a name admits the dialects in which the name is found.** -/
theorem admits_scopeOf_iff (h : t.Unambiguous) {name : String} {s : Scope} (hs : t.scopeOf name = some s)
    (d : Dialect) : s.admits d = true ↔ (t.lookup name d).isSome = true := by
  have hname : name ∈ t.names := by
    by_contra hnot
    have hnone : t.scopeOf name = none := scopeOf_eq_none_iff.2 fun e he hen => hnot (mem_names.2 ⟨e, he, hen⟩)
    rw [hnone] at hs
    cases hs
  rw [lookup_eq_find?_entriesOf]
  unfold scopeOf at hs
  rcases entriesOf_cases h hname with ⟨e, he⟩ | ⟨a, b, hab, hscopes⟩
  · rw [he] at hs ⊢
    cases hs
    rw [List.find?_isSome]
    simp
  · rw [hab] at hs ⊢
    cases hs
    rw [List.find?_isSome]
    rcases hscopes with ⟨ha, hb⟩ | ⟨ha, hb⟩ <;> cases d <;> simp [ha, hb, Scope.admits]

/-! ## Names and groups -/

theorem names_order (t : Table) :
    t.names.Pairwise fun a b => (t.entries.map (·.name)).idxOf a < (t.entries.map (·.name)).idxOf b :=
  eraseDups_pairwise_idxOf _

theorem names_nodup (t : Table) : t.names.Nodup :=
  t.names_order.imp fun {a b} hab heq => by rw [heq] at hab; exact Nat.lt_irrefl _ hab

theorem groups_flatten_perm (t : Table) : t.groups.flatten.Perm t.entries := by
  unfold groups
  rw [← List.flatMap_def]
  exact flatMap_filter_perm (·.name) t.entries

theorem groups_apart (t : Table) : t.groups.Pairwise fun g g' => ∀ a ∈ g, ∀ b ∈ g', a.name ≠ b.name := by
  refine List.pairwise_map.2 (t.names_nodup.imp fun {n n'} hne a ha b hb => ?_)
  rw [(mem_entriesOf.1 ha).2, (mem_entriesOf.1 hb).2]
  exact hne

theorem groups_shape (h : t.Unambiguous) {g : List Entry} (hg : g ∈ t.groups) :
    (∃ e, g = [e]) ∨
    ∃ a b, g = [a, b] ∧ a.name = b.name ∧ (a.scope = .c ∧ b.scope = .cxx ∨ a.scope = .cxx ∧ b.scope = .c) := by
  obtain ⟨name, hname, rfl⟩ := List.mem_map.1 hg
  refine (entriesOf_cases h hname).imp_right fun ⟨a, b, hab, hscopes⟩ => ⟨a, b, hab, ?_, hscopes⟩
  have ha : a ∈ t.entriesOf name := by rw [hab]; exact List.mem_cons_self
  have hb : b ∈ t.entriesOf name := by rw [hab]; exact List.mem_cons_of_mem _ List.mem_cons_self
  exact (mem_entriesOf.1 ha).2.trans (mem_entriesOf.1 hb).2.symm

/-! ## Histories -/

/-- **The table after entries were offered one by one**, with those left out that conflicted. -/
def built (target : Target) (guards : GuardScheme) (offers : List Entry) : Table :=
  ((empty target guards).insertAll offers).1

/-- A name for both dialects, a name split between them, and an offer in between that conflicts. -/
def splitOffers : List Entry :=
  let long : Body := .synonym (.scalar (.unsigned .long))
  [{ name := "thread", scope := .cxx, body := long }, { name := "size", body := long },
    { name := "size", scope := .c, body := .synonym ⟨.void, false, [false]⟩ },
    { name := "thread", scope := .c, body := .synonym ⟨.void, false, [false]⟩ }]

end Table
end CAbi
