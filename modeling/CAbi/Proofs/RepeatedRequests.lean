import CAbi.Proofs.UnitRun
/-!
# RepeatedRequests — a request is answered for good

A request changes a unit only if the name has an entry and none of its guards is set (`request_eq_self_iff`).  The
request itself ends that: after it a guard of the name is set, or there was no entry, and then there never is one.  Both
ends are for good, as guards are never cleared and the table is never changed.  So whatever the unit is asked to do
afterwards, and whatever came of the request, asking again changes nothing.
-/
namespace CAbi
namespace CompilationUnit

/-- **Nothing is left to do for the name**: a guard of it is set, or the table has no entry for it. -/
def Settled (u : CompilationUnit) (name : String) : Prop :=
  u.isDefined name = true ∨ u.table.lookup name u.dialect = none

variable {u v : CompilationUnit} {name : String}

/-- **A request changes nothing exactly if nothing is left to do**: otherwise there is a definition more. -/
theorem request_eq_self_iff : u.request name = u ↔ u.Settled name := by
  rw [request_eq]
  by_cases hdef : u.isDefined name = true
  · rw [if_pos hdef]
    exact iff_of_true rfl (.inl hdef)
  · rw [if_neg hdef]
    cases hl : u.table.lookup name u.dialect with
    | none => exact iff_of_true rfl (.inr hl)
    | some e =>
      refine iff_of_false (fun heq => ?_) (not_or.2 ⟨hdef, by rw [hl]; exact Option.some_ne_none e⟩)
      have hemitted : u.emitted ++ [u.table.definition u.dialect e] = u.emitted := congrArg emitted heq
      exact List.cons_ne_nil _ _ (List.append_right_eq_self.1 hemitted)

theorem settled_request (u : CompilationUnit) (name : String) : (u.request name).Settled name := by
  rcases u.request_cases name with h | ⟨e, hl, -, h⟩
  · rw [h]
    exact request_eq_self_iff.1 h
  · -- the guards it has looked at are those that the definition sets, and there is at least the primary one
    have hprimary := u.table.primaryFor_mem_guardsOf u.dialect name
    rw [h]
    refine .inl (GuardSet.containsAny_iff.2 ⟨_, hprimary, GuardSet.mem_insertAll.2 (.inl ?_)⟩)
    rw [Table.definition_guards hl]
    exact hprimary

theorem Settled.of_extends (h : u.Settled name) (hext : u.Extends v) : v.Settled name := by
  unfold Settled isDefined at h ⊢
  rw [hext.table, hext.dialect]
  refine h.imp_left fun hset => ?_
  obtain ⟨g, hg, hmem⟩ := GuardSet.containsAny_iff.1 hset
  exact GuardSet.containsAny_iff.2 ⟨g, hg, hext.guards g hmem⟩

theorem settled_requestAll (names : List String) (u : CompilationUnit) :
    ∀ name ∈ names, (u.requestAll names).Settled name := by
  induction names generalizing u with
  | nil => exact fun name hmem => absurd hmem List.not_mem_nil
  | cons first rest ih =>
    intro name hmem
    rcases List.mem_cons.1 hmem with rfl | hmem
    · exact (u.settled_request name).of_extends (extends_requestAll rest _)
    · exact ih (u.request first) name hmem

theorem requestAll_of_settled {names : List String} (h : ∀ name ∈ names, u.Settled name) : u.requestAll names = u := by
  induction names with
  | nil => rfl
  | cons first rest ih =>
    show (u.request first).requestAll rest = u
    rw [request_eq_self_iff.2 (h first List.mem_cons_self)]
    exact ih fun name hmem => h name (List.mem_cons_of_mem _ hmem)

/-- **Asking again changes nothing, ever.**  Take any unit and request a name.  However it went, and whatever operations
come after it, a second request for that name leaves guards and definitions as they are; and a list of requests made
twice is the list made once. -/
theorem request_again_eq_self (u : CompilationUnit) :
    (∀ (name : String) (ops : List Operation), ((u.request name).run ops).request name = (u.request name).run ops) ∧
    ∀ names : List String, (u.requestAll names).requestAll names = u.requestAll names := by
  refine ⟨fun name ops => ?_, fun names => ?_⟩
  · exact request_eq_self_iff.2 ((u.settled_request name).of_extends (extends_run ops _))
  · exact requestAll_of_settled (settled_requestAll names u)

end CompilationUnit
end CAbi
