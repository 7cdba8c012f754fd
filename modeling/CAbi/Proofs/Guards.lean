import CAbi.Definition
/-!
# Guards — which macros guard a name

The guards of an entry are built up by appending, with repetitions of its own aliases left out.  For the proofs only
membership matters: the primary guard, the aliases of the table if the entry takes them, and its own.
-/
namespace CAbi
namespace GuardScheme

theorem mem_foldl_addExtra {g : String} (extras guards : List String) :
    g ∈ extras.foldl addExtra guards ↔ g ∈ guards ∨ g ∈ extras := by
  induction extras generalizing guards with
  | nil => simp
  | cons x extras ih =>
    have hx : g ∈ addExtra guards x ↔ g ∈ guards ∨ g = x := by
      unfold addExtra
      split
      · rename_i hmem
        exact ⟨Or.inl, fun h => h.elim id fun e => e ▸ hmem⟩
      · rw [List.mem_append, List.mem_singleton]
    rw [List.foldl_cons, ih, hx, List.mem_cons, or_assoc]

/-- **The guards of an entry**: primary, aliases if it takes them, its own. -/
theorem mem_guardsOf {s : GuardScheme} {e : Entry} {g : String} :
    g ∈ s.guardsOf e ↔
      g = s.primaryFor e.name ∨ (e.foreignAliases = true ∧ g ∈ s.aliasesFor e.name) ∨ g ∈ e.extraAliases := by
  unfold guardsOf
  rw [mem_foldl_addExtra, List.mem_cons, or_assoc]
  cases e.foreignAliases <;> simp

end GuardScheme

namespace Table

theorem primaryFor_mem_guardsOf (t : Table) (d : Dialect) (name : String) :
    t.guards.primaryFor name ∈ t.guardsOf d name := by
  unfold guardsOf
  cases h : t.lookup name d with
  | none => exact List.mem_cons_self
  | some e =>
    have hp := List.find?_some h
    rw [Bool.and_eq_true, beq_iff_eq] at hp
    exact GuardScheme.mem_guardsOf.2 (.inl (congrArg _ hp.1.symm))

end Table
end CAbi
