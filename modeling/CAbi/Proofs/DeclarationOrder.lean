import CAbi.Proofs.Acceptance
import CAbi.Proofs.EntriesByName
import CAbi.Proofs.KnownLayouts
/-!
# DeclarationOrder — the order of the entries says nothing

A table is filled entry by entry, and each is held against those that stand there already.  A reference may lead to an
entry before or after its own, and searches end after as many steps as there are entries.  So the order could show: in
what is accepted, in what a name is found to be, in the layouts.

It shows in none of them.  What makes a table well-formed is a property of its entries and of pairs of them
(`WellFormed.perm`), and in an unambiguous table what is found is what is there (`Extends.of_subset`).
-/
namespace CAbi

theorem refers_congr {es es' : List Entry} (h : ∀ e, e ∈ es ↔ e ∈ es') : Refers es = Refers es' := by
  funext d a b
  simp only [Refers, h]

/-- **Well-formed in one order is well-formed in every order.** -/
theorem WellFormed.perm {target : Target} {guards : GuardScheme} {es es' : List Entry} (hperm : es.Perm es')
    (hw : WellFormed target guards es) : WellFormed target guards es' where
  guards := hw.guards
  target := hw.target
  unambiguous := (hperm.pairwise_iff fun h => h.symm).1 hw.unambiguous
  bodies e he := hw.bodies e (hperm.mem_iff.2 he)
  resolved d e he hd r hr := by
    obtain ⟨e', he', hfound⟩ := hw.resolved d e (hperm.mem_iff.2 he) hd r hr
    exact ⟨e', hperm.mem_iff.1 he', hfound⟩
  acyclic := by
    unfold Acyclic
    rw [← refers_congr fun e => hperm.mem_iff]
    exact hw.acyclic

/-- A scope is the dialects it admits. -/
theorem Scope.eq_of_admits {s s' : Scope} (h : ∀ d, s.admits d = true ↔ s'.admits d = true) : s = s' := by
  have hc := h .c
  have hcxx := h .cxx
  cases s <;> cases s' <;> simp_all [admits]

namespace Table

variable {t t' : Table}

/-- **An unambiguous table finds what is in it**, and so all that a table with fewer entries finds. -/
theorem Extends.of_subset (htarget : t'.target = t.target) (h : t'.Unambiguous)
    (hsub : ∀ e ∈ t.entries, e ∈ t'.entries) : t.Extends t' := by
  refine ⟨htarget, fun {name d e} he => (lookup_eq_some_iff h).2 ?_⟩
  obtain ⟨hmem, hname, hd⟩ := mem_of_lookup_eq_some he
  exact ⟨hsub e hmem, hname, hd⟩

/-- **Two tables that say the same**: which entries there are and what their guards are, and of every name in every
dialect whether it is defined, how, for whom, under which guards and with which layout. -/
structure SaysSame (t t' : Table) : Prop where
  entries : ∀ e, e ∈ t.entries ↔ e ∈ t'.entries
  entryGuards : ∀ e ∈ t.entries, t.guards.guardsOf e = t'.guards.guardsOf e
  lookup : ∀ name d, t.lookup name d = t'.lookup name d
  contains : ∀ name, t.contains name = t'.contains name
  scopeOf : ∀ name, t.scopeOf name = t'.scopeOf name
  guardsOf : ∀ name d, t.guardsOf d name = t'.guardsOf d name
  layoutOf : ∀ name d, t.layoutOf d name = t'.layoutOf d name

theorem contains_congr (h : ∀ e, e ∈ t.entries ↔ e ∈ t'.entries) (name : String) :
    t.contains name = t'.contains name := by
  rw [Bool.eq_iff_iff, contains_iff, contains_iff]
  simp only [h]

/-- The scope of a name is read off its entries one by one or as a pair; either way it is where the name is found. -/
theorem scopeOf_congr (h : t.Unambiguous) (h' : t'.Unambiguous) (hentries : ∀ e, e ∈ t.entries ↔ e ∈ t'.entries)
    (hlookup : ∀ name d, t.lookup name d = t'.lookup name d) (name : String) : t.scopeOf name = t'.scopeOf name := by
  have hnone : t.scopeOf name = none ↔ t'.scopeOf name = none := by
    simp only [scopeOf_eq_none_iff, hentries]
  cases hs : t.scopeOf name with
  | none => exact (hnone.1 hs).symm
  | some s =>
    cases hs' : t'.scopeOf name with
    | none =>
      rw [hnone.2 hs'] at hs
      cases hs
    | some s' =>
      have hsame : s = s' := Scope.eq_of_admits fun d => by
        rw [admits_scopeOf_iff h hs, admits_scopeOf_iff h' hs', hlookup]
      rw [hsame]

/-- **In another order the same entries say the same.** -/
theorem saysSame_of_perm {target : Target} {guards : GuardScheme} {es es' : List Entry} (hperm : es.Perm es')
    (h : es.Pairwise Entry.Compatible) : SaysSame ⟨target, guards, es⟩ ⟨target, guards, es'⟩ := by
  have h' : es'.Pairwise Entry.Compatible := (hperm.pairwise_iff fun h => h.symm).1 h
  have hthere : Extends ⟨target, guards, es⟩ ⟨target, guards, es'⟩ := .of_subset rfl h' fun _ => hperm.mem_iff.1
  have hback : Extends ⟨target, guards, es'⟩ ⟨target, guards, es⟩ := .of_subset rfl h fun _ => hperm.mem_iff.2
  have hlookup : ∀ name d, Table.lookup ⟨target, guards, es⟩ name d = Table.lookup ⟨target, guards, es'⟩ name d :=
    fun name d => Option.ext fun e => ⟨hthere.lookup, hback.lookup⟩
  exact
    { entries := fun e => hperm.mem_iff
      entryGuards := fun e he => rfl
      lookup := hlookup
      contains := contains_congr fun e => hperm.mem_iff
      scopeOf := scopeOf_congr h h' (fun e => hperm.mem_iff) hlookup
      guardsOf := fun name d => by simp only [guardsOf, hlookup]
      layoutOf := fun name d => Option.ext fun l => ⟨hthere.layoutOf, hback.layoutOf⟩ }

/-- **The order of declaration does not matter.**  Entries in two orders are accepted in both or in neither, and the
tables they make say the same. -/
theorem ofEntries_perm (target : Target) (guards : GuardScheme) {es es' : List Entry} (hperm : es.Perm es') :
    ((∃ t, ofEntries target guards es = .ok t) ↔ ∃ t', ofEntries target guards es' = .ok t') ∧
    ∀ t t', ofEntries target guards es = .ok t → ofEntries target guards es' = .ok t' → t.SaysSame t' := by
  have haccept : ∀ {xs ys : List Entry}, xs.Perm ys → (∃ t, ofEntries target guards xs = .ok t) →
      ∃ t', ofEntries target guards ys = .ok t' := by
    rintro xs ys hxy ⟨t, ht⟩
    have hw := wellFormed_of_ofEntries ht
    rw [eq_of_ofEntries ht] at hw
    exact ⟨_, ofEntries_of_wellFormed (hw.perm hxy)⟩
  refine ⟨⟨haccept hperm, haccept hperm.symm⟩, fun t t' ht ht' => ?_⟩
  have hunambiguous := (wellFormed_of_ofEntries ht).unambiguous
  rw [eq_of_ofEntries ht] at hunambiguous ⊢
  rw [eq_of_ofEntries ht']
  exact saysSame_of_perm hperm hunambiguous

/-- A name split between the dialects, with a reference to it that stands before both parts or after them. -/
theorem ofEntries_perm_words :
    let cxxWord : Entry := { name := "word", scope := .cxx, body := .synonym (.scalar (.plain .int)) }
    let es := wordEntries ++ [cxxWord]
    ∃ t t', ofEntries (.ofModel "" .lp64) {} es = .ok t ∧ ofEntries (.ofModel "" .lp64) {} es.reverse = .ok t' ∧
      t.names = ["pair", "word"] ∧ t'.names = ["word", "pair"] ∧
      t.layoutOf .cxx "pair" = some ⟨8, 4⟩ ∧ t'.layoutOf .cxx "pair" = some ⟨8, 4⟩ := by
  intro cxxWord es
  have hfirst : ofEntries (.ofModel "" .lp64) {} es = .ok ⟨.ofModel "" .lp64, {}, es⟩ := by decide +kernel
  have hperm := ofEntries_perm (.ofModel "" .lp64) {} es.reverse_perm.symm
  obtain ⟨t', ht'⟩ := hperm.1.1 ⟨_, hfirst⟩
  have hlayout : layoutOf ⟨.ofModel "" .lp64, {}, es⟩ .cxx "pair" = some ⟨8, 4⟩ := by decide
  refine ⟨_, t', hfirst, ht', by decide, ?_, hlayout, ?_⟩
  · rw [eq_of_ofEntries ht']
    decide
  · rw [← (hperm.2 _ _ hfirst ht').layoutOf "pair" .cxx]
    exact hlayout

end Table
end CAbi
