import Mathlib.Logic.Relation
import CAbi.Proofs.Insertion
import CAbi.Proofs.Stages
import CAbi.Table.Check
/-!
# References — the graph of names, and the search in it

An entry refers to the names in its body, through pointers too.  `Table.reaches` looks for a path of references that is
no longer than the table has entries, and one more; `reaches_iff` says that it finds every path there is, also where the
references that lead away from it run in circles.

The graph is stated over a list of entries (`Refers`), so that it can be asked for before there is a table.
-/
namespace CAbi

/-- **One name refers to another in a dialect**: an entry of the first for the dialect has the second in its body. -/
def Refers (entries : List Entry) (d : Dialect) (a b : String) : Prop :=
  ∃ e ∈ entries, e.name = a ∧ e.scope.admits d = true ∧ b ∈ e.body.references

namespace Table

variable {t : Table} {d : Dialect}

theorem mem_successors {a b : String} :
    b ∈ t.successors d a ↔ ∃ e, t.lookup a d = some e ∧ b ∈ e.body.references := by
  unfold successors
  cases t.lookup a d with
  | none => simp
  | some e => simp

theorem mem_successors_iff_refers (h : t.Unambiguous) {a b : String} :
    b ∈ t.successors d a ↔ Refers t.entries d a b := by
  rw [mem_successors]
  constructor
  · rintro ⟨e, he, hb⟩
    obtain ⟨hmem, hname, hd⟩ := mem_of_lookup_eq_some he
    exact ⟨e, hmem, hname, hd, hb⟩
  · rintro ⟨e, hmem, hname, hd, hb⟩
    exact ⟨e, (lookup_eq_some_iff h).2 ⟨hmem, hname, hd⟩, hb⟩

theorem reachesWithin_succ_iff {goal : String} {n : Nat} {a : String} :
    t.reachesWithin d goal (n + 1) a = true ↔
      a = goal ∨ ∃ b ∈ t.successors d a, t.reachesWithin d goal n b = true := by
  simp only [reachesWithin, Bool.or_eq_true, beq_iff_eq, List.any_eq_true]

theorem reachesWithin_self (goal : String) (n : Nat) : t.reachesWithin d goal n goal = true := by
  cases n <;> simp [reachesWithin]

/-- **What the search reports is a path.** -/
theorem reflTransGen_of_reachesWithin {goal : String} {n : Nat} {a : String}
    (h : t.reachesWithin d goal n a = true) : Relation.ReflTransGen (fun x y => y ∈ t.successors d x) a goal := by
  induction n generalizing a with
  | zero =>
    simp only [reachesWithin, beq_iff_eq] at h
    rw [h]
  | succ n ih =>
    rcases reachesWithin_succ_iff.1 h with rfl | ⟨b, hb, h⟩
    · exact .refl
    · exact .head hb (ih h)

theorem reachesWithin_stages (t : Table) (d : Dialect) (goal : String) :
    Stages (goal :: t.entries.map (·.name)) fun n a => t.reachesWithin d goal n a = true where
  grows n := by
    induction n with
    | zero =>
      intro a h
      simp only [reachesWithin, beq_iff_eq] at h
      exact reachesWithin_succ_iff.2 (.inl h)
    | succ n ih =>
      intro a h
      rcases reachesWithin_succ_iff.1 h with rfl | ⟨b, hb, h⟩
      · exact reachesWithin_self a _
      · exact reachesWithin_succ_iff.2 (.inr ⟨b, hb, ih b h⟩)
  bounded n a h := by
    cases n with
    | zero =>
      simp only [reachesWithin, beq_iff_eq] at h
      rw [h]; exact List.mem_cons_self
    | succ n =>
      rcases reachesWithin_succ_iff.1 h with rfl | ⟨b, hb, -⟩
      · exact List.mem_cons_self
      · obtain ⟨e, he, -⟩ := mem_successors.1 hb
        obtain ⟨hmem, hname, -⟩ := mem_of_lookup_eq_some he
        exact List.mem_cons_of_mem _ (List.mem_map.2 ⟨e, hmem, hname⟩)
  settles n hsettled a h := by
    rcases reachesWithin_succ_iff.1 h with rfl | ⟨b, hb, h⟩
    · exact reachesWithin_self a _
    · exact reachesWithin_succ_iff.2 (.inr ⟨b, hb, hsettled b h⟩)

/-- **What any number of steps finds, one step more than there are entries finds.** -/
theorem reaches_of_reachesWithin {goal : String} {n : Nat} {a : String} (h : t.reachesWithin d goal n a = true) :
    t.reaches d a goal = true := by
  have hbound : (goal :: t.entries.map (·.name)).length ≤ t.size + 1 := by
    rw [List.length_cons, List.length_map]; exact Nat.le_refl _
  exact (reachesWithin_stages t d goal).known_length hbound h

/-- **The search finds a path exactly if there is one**, of whatever length. -/
theorem reaches_iff {a goal : String} :
    t.reaches d a goal = true ↔ Relation.ReflTransGen (fun x y => y ∈ t.successors d x) a goal := by
  refine ⟨reflTransGen_of_reachesWithin, fun h => ?_⟩
  have hsome : ∃ n, t.reachesWithin d goal n a = true := by
    induction h using Relation.ReflTransGen.head_induction_on with
    | refl => exact ⟨0, reachesWithin_self goal 0⟩
    | head hb _ ih =>
      obtain ⟨n, hn⟩ := ih
      exact ⟨n + 1, reachesWithin_succ_iff.2 (.inr ⟨_, hb, hn⟩)⟩
  obtain ⟨n, hn⟩ := hsome
  exact reaches_of_reachesWithin hn

theorem reaches_iff_refers (h : t.Unambiguous) {a goal : String} :
    t.reaches d a goal = true ↔ Relation.ReflTransGen (Refers t.entries d) a goal := by
  have heq : (fun x y => y ∈ t.successors d x) = Refers t.entries d := by
    funext x y
    exact propext (mem_successors_iff_refers h)
  rw [reaches_iff, heq]

end Table
end CAbi
