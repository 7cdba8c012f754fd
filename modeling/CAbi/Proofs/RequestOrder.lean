import Mathlib.Data.List.Induction
import CAbi.Proofs.UnitRun
import CAbi.Table.Check
/-!
# RequestOrder — what a list of requests comes to, and when its order does not matter

A unit answers requests one by one, and each answer changes what the next one finds set.  Yet as long as no two wanted
names share a guard, the end can be read off the list: every name the table defines and no preset guard hides is
defined, in the order in which the names were first asked for (`emitted_serve`).  Requests that are skipped, unknown or
for the other dialect leave no trace, whatever guards they would look at.

From that the order of the requests does not matter to what is defined.  The condition cannot be weakened: a wanted name
that is asked for first is defined (`mem_names_serve_cons`), and no two definitions share a guard, so of two wanted names
that do the first suppresses the second.  The checks of a table do not rule such names out.
-/
namespace CAbi

namespace Table

/-- **The table defines the name and none of its guards is preset.** -/
def wants (t : Table) (d : Dialect) (presets : List String) (name : String) : Bool :=
  (t.lookup name d).isSome && (t.guardsOf d name).all fun g => !presets.contains g

/-- **No two of the names have a guard in common.** -/
def GuardsApart (t : Table) (d : Dialect) (names : List String) : Prop :=
  ∀ a ∈ names, ∀ b ∈ names, a ≠ b → ∀ g ∈ t.guardsOf d a, g ∉ t.guardsOf d b

instance (t : Table) (d : Dialect) (names : List String) : Decidable (t.GuardsApart d names) :=
  inferInstanceAs (Decidable (∀ a ∈ names, ∀ b ∈ names, a ≠ b → ∀ g ∈ t.guardsOf d a, g ∉ t.guardsOf d b))

theorem GuardsApart.mono {t : Table} {d : Dialect} {names names' : List String} (h : t.GuardsApart d names)
    (hsub : ∀ n ∈ names', n ∈ names) : t.GuardsApart d names' :=
  fun a ha b hb => h a (hsub a ha) b (hsub b hb)

theorem wants_iff {t : Table} {d : Dialect} {presets : List String} {name : String} :
    t.wants d presets name = true ↔
      (t.lookup name d).isSome = true ∧ ∀ g ∈ t.guardsOf d name, g ∉ presets := by
  simp [wants]

end Table

namespace CompilationUnit

/-- **A fresh unit with guards preset, after the requests.** -/
def serve (t : Table) (d : Dialect) (policy : UnknownPolicy) (presets requests : List String) : CompilationUnit :=
  (presets.foldl preset (fresh t d policy)).requestAll requests

variable {t : Table} {d : Dialect} {policy : UnknownPolicy} {presets : List String}

theorem serve_append (xs ys : List String) :
    serve t d policy presets (xs ++ ys) = (serve t d policy presets xs).requestAll ys := List.foldl_append

theorem serve_table (requests : List String) : (serve t d policy presets requests).table = t := by
  unfold serve
  rw [(extends_requestAll requests _).table, foldl_preset]
  rfl

theorem serve_dialect (requests : List String) : (serve t d policy presets requests).dialect = d := by
  unfold serve
  rw [(extends_requestAll requests _).dialect, foldl_preset]
  rfl

theorem sound_serve (requests : List String) : (serve t d policy presets requests).Sound (· ∈ presets) := by
  refine sound_requestAll requests ⟨?_, ?_, fun g => ?_⟩ <;> rw [foldl_preset]
  · exact fun D hD => absurd hD List.not_mem_nil
  · exact List.Pairwise.nil
  · show g ∈ (GuardSet.empty.insertAll presets).list ↔ _
    rw [GuardSet.mem_insertAll]
    simp [fresh, GuardSet.empty]

theorem guards_eq_of_mem_emitted {requests : List String} {D : Definition}
    (hD : D ∈ (serve t d policy presets requests).emitted) : D.guards = t.guardsOf d D.name := by
  rw [(sound_serve requests).guards_eq D hD, serve_table, serve_dialect]

/-- **A name is found defined** if one of its guards is preset or set by a definition. -/
theorem isDefined_serve_iff (requests : List String) (name : String) :
    (serve t d policy presets requests).isDefined name = true ↔
      ∃ g ∈ t.guardsOf d name, g ∈ presets ∨ ∃ D ∈ (serve t d policy presets requests).emitted, g ∈ D.guards := by
  rw [isDefined, GuardSet.containsAny_iff, serve_table, serve_dialect]
  exact exists_congr fun g => and_congr_right fun _ => (sound_serve requests).set_iff g

/-- **What one more request adds**: nothing, or the definition of a name that is not found defined. -/
theorem emitted_serve_concat (requests : List String) (name : String) :
    (serve t d policy presets (requests ++ [name])).emitted =
      (serve t d policy presets requests).emitted ++
        if (serve t d policy presets requests).isDefined name then []
        else ((t.lookup name d).map (t.definition d)).toList := by
  have hstep : serve t d policy presets (requests ++ [name]) = (serve t d policy presets requests).request name :=
    serve_append requests [name]
  rw [hstep, request_eq, serve_table, serve_dialect]
  split
  · exact (List.append_nil _).symm
  · cases t.lookup name d with
    | none => exact (List.append_nil _).symm
    | some e => rfl

theorem emitted_serve_nil : (serve t d policy presets []).emitted = [] := by
  show (presets.foldl preset (fresh t d policy)).emitted = []
  rw [foldl_preset]
  rfl

/-- **What is emitted is what the table says.** -/
theorem resolve_of_mem_emitted {requests : List String} {D : Definition}
    (hD : D ∈ (serve t d policy presets requests).emitted) : t.resolve d D.name = .defined D := by
  have hpreset : (presets.foldl preset (fresh t d policy)).FromTable := fun D hD => by
    rw [foldl_preset] at hD
    cases hD
  have hsays := fromTable_requestAll requests hpreset D hD
  rw [← serve, serve_table, serve_dialect] at hsays
  exact hsays

/-! ## The end of a run -/

/-- **A wanted name is found defined only if it was asked for before**, as no other wanted name has a guard of it. -/
theorem isDefined_serve_of_wants {requests : List String} {name : String}
    (h : t.GuardsApart d ((requests ++ [name]).filter (t.wants d presets))) (hwants : t.wants d presets name = true)
    (hemitted : (serve t d policy presets requests).emitted.map (·.name) =
      (requests.filter (t.wants d presets)).eraseDups) :
    (serve t d policy presets requests).isDefined name = true ↔ name ∈ requests := by
  have hnames : ∀ n, (∃ D ∈ (serve t d policy presets requests).emitted, D.name = n) ↔
      n ∈ requests ∧ t.wants d presets n = true := fun n => by
    rw [← List.mem_filter, ← List.mem_eraseDups, ← hemitted, List.mem_map]
  rw [isDefined_serve_iff]
  constructor
  · rintro ⟨g, hg, hpreset | ⟨D, hD, hgD⟩⟩
    · exact absurd hpreset ((Table.wants_iff.1 hwants).2 g hg)
    · by_contra hnew
      have hmem := (hnames D.name).1 ⟨D, hD, rfl⟩
      rw [guards_eq_of_mem_emitted hD] at hgD
      have hne : name ≠ D.name := fun heq => hnew (heq ▸ hmem.1)
      refine h name (List.mem_filter.2 ⟨?_, hwants⟩) D.name (List.mem_filter.2 ⟨?_, hmem.2⟩) hne g hg hgD
      · exact List.mem_append_right _ List.mem_cons_self
      · exact List.mem_append_left _ hmem.1
  · intro hold
    obtain ⟨D, hD, rfl⟩ := (hnames name).2 ⟨hold, hwants⟩
    have hprimary := t.primaryFor_mem_guardsOf d D.name
    exact ⟨_, hprimary, .inr ⟨D, hD, guards_eq_of_mem_emitted hD ▸ hprimary⟩⟩

/-- **The names defined are the wanted ones, in the order in which they were first asked for.** -/
theorem emitted_serve {requests : List String} (h : t.GuardsApart d (requests.filter (t.wants d presets))) :
    (serve t d policy presets requests).emitted.map (·.name) = (requests.filter (t.wants d presets)).eraseDups := by
  induction requests using List.reverseRecOn with
  | nil =>
    rw [emitted_serve_nil]
    rfl
  | append_singleton requests name ih =>
    have hold := ih (h.mono fun n hn => by
      rw [List.filter_append]
      exact List.mem_append_left _ hn)
    rw [emitted_serve_concat, List.map_append, hold, List.filter_append]
    cases hwants : t.wants d presets name with
    | true =>
      have hdef := isDefined_serve_of_wants h hwants hold
      have hfilter : [name].filter (t.wants d presets) = [name] := by simp [hwants]
      obtain ⟨e, hl⟩ := Option.isSome_iff_exists.1 (Table.wants_iff.1 hwants).1
      rw [hfilter, eraseDups_concat, hl]
      by_cases hmem : name ∈ requests
      · rw [if_pos (hdef.2 hmem), if_pos (List.mem_filter.2 ⟨hmem, hwants⟩)]
        rfl
      · rw [if_neg (mt hdef.1 hmem), if_neg fun hin => hmem (List.mem_filter.1 hin).1]
        rw [← (Table.mem_of_lookup_eq_some hl).2.1]
        rfl
    | false =>
      have hfilter : [name].filter (t.wants d presets) = [] := by simp [hwants]
      rw [hfilter, List.append_nil]
      cases hl : t.lookup name d with
      | none => split <;> exact List.append_nil _
      | some e =>
        -- the table defines the name, so it is a preset guard that hides it
        obtain ⟨g, hg, hset⟩ : ∃ g ∈ t.guardsOf d name, g ∈ presets := by
          by_contra hnone
          have hyes := Table.wants_iff.2 ⟨Option.isSome_iff_exists.2 ⟨e, hl⟩, fun g hg hset => hnone ⟨g, hg, hset⟩⟩
          rw [hwants] at hyes
          cases hyes
        rw [if_pos ((isDefined_serve_iff requests name).2 ⟨g, hg, .inl hset⟩)]
        exact List.append_nil _

theorem mem_guards_serve_iff (requests : List String) (g : String) :
    g ∈ (serve t d policy presets requests).guards.list ↔
      g ∈ presets ∨ ∃ n ∈ (serve t d policy presets requests).emitted.map (·.name), g ∈ t.guardsOf d n := by
  rw [(sound_serve requests).set_iff g]
  refine or_congr_right ⟨?_, ?_⟩
  · rintro ⟨D, hD, hg⟩
    exact ⟨D.name, List.mem_map_of_mem hD, guards_eq_of_mem_emitted hD ▸ hg⟩
  · rintro ⟨n, hn, hg⟩
    obtain ⟨D, hD, rfl⟩ := List.mem_map.1 hn
    exact ⟨D, hD, (guards_eq_of_mem_emitted hD).symm ▸ hg⟩

/-- **The end of a run in closed form.**  If no two of the requested names that the table defines share a guard, then
what is defined are the requested names that the table defines and no preset guard hides, each as the table defines it, in
the order in which they were first asked for; and the guards set are the preset ones and those of these names. -/
theorem serve_defines_first_requests (t : Table) (d : Dialect) (policy : UnknownPolicy) (presets requests : List String)
    (h : t.GuardsApart d (requests.filter fun n => (t.lookup n d).isSome)) :
    let u := serve t d policy presets requests
    let wanted := requests.filter (t.wants d presets)
    u.emitted.map (·.name) = wanted.eraseDups ∧
    (∀ D ∈ u.emitted, t.resolve d D.name = .defined D) ∧
    ∀ g, u.guards.contains g = true ↔ g ∈ presets ∨ ∃ n ∈ wanted, g ∈ t.guardsOf d n := by
  intro u wanted
  have happart : t.GuardsApart d wanted := h.mono fun n hn => by
    obtain ⟨hmem, hwants⟩ := List.mem_filter.1 hn
    exact List.mem_filter.2 ⟨hmem, (Table.wants_iff.1 hwants).1⟩
  have hnames : u.emitted.map (·.name) = wanted.eraseDups := emitted_serve happart
  refine ⟨hnames, fun D hD => resolve_of_mem_emitted hD, fun g => ?_⟩
  rw [GuardSet.contains_iff, mem_guards_serve_iff requests g, hnames]
  simp only [List.mem_eraseDups]

/-- A name in both dialects, one in each of them alone, and one with a guard of its own. -/
def mixedEntries : List Entry :=
  [{ name := "size_t", body := .synonym (.scalar (.unsigned .addr)) },
   { name := "wchar_t", scope := .c, body := .synonym (.scalar (.plain .int)) },
   { name := "pthread_t", scope := .cxx, body := .synonym (.scalar (.unsigned .long)) },
   { name := "ptrdiff_t", body := .synonym (.scalar (.plain .addr)), extraAliases := ["_PTRDIFF_T"] }]

/-- An unknown name that shares a guard with a known one, a name of the other dialect, one that is hidden, and a
repetition. -/
theorem serve_defines_first_requests_mixed :
    let t : Table := ⟨.ofModel "host" .lp64, {}, mixedEntries⟩
    let presets := ["__CLANG_PTHREAD_T_DEFINED"]
    let requests := ["ptrdiff_t", "Size_T", "size_t", "wchar_t", "pthread_t", "ptrdiff_t"]
    t.GuardsApart .cxx (requests.filter fun n => (t.lookup n .cxx).isSome) ∧
    (serve t .cxx .reject presets requests).emitted.map (·.name) = ["ptrdiff_t", "size_t"] := by
  intro t presets requests
  have happart : t.GuardsApart .cxx (requests.filter fun n => (t.lookup n .cxx).isSome) := by decide
  exact ⟨happart, (serve_defines_first_requests t .cxx .reject presets requests happart).1.trans (by decide)⟩

/-! ## The order of the requests -/

/-- **Two units that end alike**: the same definitions and the same guards, in whatever order they came. -/
structure EndAlike (u v : CompilationUnit) : Prop where
  emitted : ∀ D, D ∈ u.emitted ↔ D ∈ v.emitted
  guards : ∀ g, u.guards.contains g = v.guards.contains g

/-- Of a table, a name has one definition, so the names tell what was emitted. -/
theorem mem_emitted_iff {requests : List String} {D : Definition} :
    D ∈ (serve t d policy presets requests).emitted ↔
      D.name ∈ (serve t d policy presets requests).emitted.map (·.name) ∧ t.resolve d D.name = .defined D := by
  constructor
  · intro hD
    exact ⟨List.mem_map_of_mem hD, resolve_of_mem_emitted hD⟩
  · rintro ⟨hname, hD⟩
    obtain ⟨D', hD', heq⟩ := List.mem_map.1 hname
    have hsame := resolve_of_mem_emitted hD'
    rw [heq, hD] at hsame
    cases hsame
    exact hD'

theorem endAlike_of_names {xs ys : List String}
    (h : ∀ n, n ∈ (serve t d policy presets xs).emitted.map (·.name) ↔
      n ∈ (serve t d policy presets ys).emitted.map (·.name)) :
    EndAlike (serve t d policy presets xs) (serve t d policy presets ys) := by
  refine ⟨fun D => ?_, fun g => ?_⟩
  · rw [mem_emitted_iff, mem_emitted_iff, h]
  · rw [Bool.eq_iff_iff, GuardSet.contains_iff, GuardSet.contains_iff, mem_guards_serve_iff, mem_guards_serve_iff]
    simp only [h]

/-- **A wanted name that is asked for first is defined.** -/
theorem mem_names_serve_cons {name : String} (h : t.wants d presets name = true) (requests : List String) :
    name ∈ (serve t d policy presets (name :: requests)).emitted.map (·.name) := by
  have hfilter : [name].filter (t.wants d presets) = [name] := by simp [h]
  have hone : (serve t d policy presets [name]).emitted.map (·.name) = [name] := by
    have hapart : t.GuardsApart d ([name].filter (t.wants d presets)) := by
      rw [hfilter]
      intro a ha b hb hne
      rw [List.mem_singleton.1 ha, List.mem_singleton.1 hb] at hne
      exact absurd rfl hne
    rw [emitted_serve hapart, hfilter]
    exact eraseDups_concat [] name
  have hserve : serve t d policy presets (name :: requests) = (serve t d policy presets [name]).requestAll requests :=
    serve_append [name] requests
  obtain ⟨new, hnew, -⟩ := (extends_requestAll requests (serve t d policy presets [name])).emitted
  rw [hserve, hnew, List.map_append, hone]
  exact List.mem_append_left _ List.mem_cons_self

theorem Sound.eq_of_common_guard {outside : String → Prop} {u : CompilationUnit} (h : u.Sound outside)
    {A B : Definition} (hA : A ∈ u.emitted) (hB : B ∈ u.emitted) {g : String} (hgA : g ∈ A.guards)
    (hgB : g ∈ B.guards) : A = B := by
  have hsymm : Std.Symm fun A B : Definition => ∀ g ∈ A.guards, g ∉ B.guards :=
    ⟨fun _ _ hAB g hgB hgA => hAB g hgA hgB⟩
  by_contra hne
  exact h.disjoint.forall hA hB hne g hgA hgB

/-- **The order of requests does not matter exactly if no two wanted names share a guard.**  Of two that do, the one
that is asked for first suppresses the other. -/
theorem endAlike_of_perm_iff (t : Table) (d : Dialect) (policy : UnknownPolicy) (presets requests : List String) :
    (∀ requests', requests.Perm requests' →
      EndAlike (serve t d policy presets requests) (serve t d policy presets requests')) ↔
    t.GuardsApart d (requests.filter (t.wants d presets)) := by
  constructor
  · intro h a ha b hb hne g hga hgb
    obtain ⟨hmemA, hwantsA⟩ := List.mem_filter.1 ha
    obtain ⟨hmemB, hwantsB⟩ := List.mem_filter.1 hb
    -- each of the two is defined where it is asked for first, so both are defined in one and the same unit
    have hboth : ∀ n ∈ requests, t.wants d presets n = true →
        ∃ D ∈ (serve t d policy presets requests).emitted, D.name = n := by
      intro n hmem hwants
      have hfirst : n ∈ (serve t d policy presets (n :: requests.erase n)).emitted.map (·.name) :=
        mem_names_serve_cons hwants _
      obtain ⟨D, hD, hname⟩ := List.mem_map.1 hfirst
      exact ⟨D, ((h _ (List.perm_cons_erase hmem)).emitted D).2 hD, hname⟩
    obtain ⟨A, hA, rfl⟩ := hboth a hmemA hwantsA
    obtain ⟨B, hB, rfl⟩ := hboth b hmemB hwantsB
    rw [← guards_eq_of_mem_emitted hA] at hga
    rw [← guards_eq_of_mem_emitted hB] at hgb
    exact hne (congrArg _ ((sound_serve requests).eq_of_common_guard hA hB hga hgb))
  · intro h requests' hperm
    have hfilter := hperm.filter (t.wants d presets)
    have h' : t.GuardsApart d (requests'.filter (t.wants d presets)) := h.mono fun n hn => hfilter.mem_iff.2 hn
    refine endAlike_of_names fun n => ?_
    rw [emitted_serve h, emitted_serve h', List.mem_eraseDups, List.mem_eraseDups, hfilter.mem_iff]

/-- Two names that differ in the case of their letters, which an upper-case placeholder forgets. -/
def sizeEntries : List Entry :=
  [{ name := "size_t", body := .synonym (.scalar (.unsigned .long)) },
   { name := "SIZE_T", body := .synonym (.scalar (.unsigned .int)) }]

/-- **In a checked table the order of requests can matter.** -/
theorem sharedGuard_order_matters :
    let t : Table := ⟨.ofModel "host" .lp64, {}, sizeEntries⟩
    Table.ofEntries (.ofModel "host" .lp64) {} sizeEntries = .ok t ∧
    ["size_t", "SIZE_T"].Perm ["SIZE_T", "size_t"] ∧
    (serve t .c .ignore [] ["size_t", "SIZE_T"]).emitted.map (·.name) = ["size_t"] ∧
    (serve t .c .ignore [] ["SIZE_T", "size_t"]).emitted.map (·.name) = ["SIZE_T"] ∧
    ¬EndAlike (serve t .c .ignore [] ["size_t", "SIZE_T"]) (serve t .c .ignore [] ["SIZE_T", "size_t"]) := by
  intro t
  refine ⟨by decide, by decide, by decide, by decide, fun h => ?_⟩
  exact absurd (h.guards "__DEFINED_size_t") (by decide)

end CompilationUnit
end CAbi
