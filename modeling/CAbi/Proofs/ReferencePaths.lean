import CAbi.Proofs.EntriesByName
import CAbi.Proofs.HeldByValue
import CAbi.Proofs.References
/-!
# ReferencePaths — what the cycle search decides

The search for a way back keeps no list of the names it has seen.  In a table that nobody has checked it runs round
every cycle it meets, also round those that the goal does not lie on, until its steps are used up, and only then turns
to the next reference; a reference may also lead to a name without an entry, where the search ends unless that name is
the goal.

A path is counted in references (`Table.Path`) and is stated over the types of the bodies.  With `n` steps left the
search finds exactly the paths of at most `n` references (`reachesWithin_iff_path`): the name it stands at is compared
with the goal also when no step is left.  That the steps it starts with are enough for a path of whatever length is
`reaches_of_reachesWithin`.
-/
namespace CAbi

/-- **A body mentions a name**: one of its types is the name, or a pointer to it over however many levels. -/
def Body.Mentions (b : Body) (name : String) : Prop := ∃ type ∈ b.types, type.base = .named name

theorem CType.reference?_eq_some_iff {type : CType} {name : String} :
    type.reference? = some name ↔ type.base = .named name := by
  unfold CType.reference?
  cases type.base <;> simp

theorem Body.mem_references_iff_mentions {b : Body} {name : String} : name ∈ b.references ↔ b.Mentions name := by
  rw [b.references_eq, List.mem_filterMap]
  simp only [CType.reference?_eq_some_iff, Mentions]

namespace Table

/-- **A path of so many references.**  Each leaves a name by an entry of it for the dialect and enters a name that the
entry's body mentions; the name a path ends at need not have an entry. -/
inductive Path (t : Table) (d : Dialect) : Nat → String → String → Prop
  | here (a : String) : Path t d 0 a a
  | step {n : Nat} {e : Entry} {b c : String} (entry : e ∈ t.entries) (admits : e.scope.admits d = true)
      (mentions : e.body.Mentions b) (rest : Path t d n b c) : Path t d (n + 1) e.name c

variable {t : Table} {d : Dialect}

theorem mem_successors_iff_mentions (h : t.Unambiguous) {a b : String} :
    b ∈ t.successors d a ↔ ∃ e ∈ t.entries, e.name = a ∧ e.scope.admits d = true ∧ e.body.Mentions b := by
  rw [mem_successors_iff_refers h]
  simp only [Refers, Body.mem_references_iff_mentions]

/-- **With so many steps left the search finds exactly the paths of at most so many references.** -/
theorem reachesWithin_iff_path (h : t.Unambiguous) {goal : String} {n : Nat} {a : String} :
    t.reachesWithin d goal n a = true ↔ ∃ m ≤ n, t.Path d m a goal := by
  induction n generalizing a with
  | zero =>
    -- no step is left, but the name is still compared with the goal: the path of no references is found
    simp only [reachesWithin, beq_iff_eq, Nat.le_zero_eq, exists_eq_left]
    constructor
    · rintro rfl
      exact .here a
    · rintro ⟨⟩
      rfl
  | succ n ih =>
    rw [reachesWithin_succ_iff]
    constructor
    · rintro (rfl | ⟨b, hb, hreach⟩)
      · exact ⟨0, Nat.zero_le _, .here a⟩
      · obtain ⟨m, hm, hpath⟩ := ih.1 hreach
        obtain ⟨e, hmem, rfl, hd, hmentions⟩ := (mem_successors_iff_mentions h).1 hb
        exact ⟨m + 1, Nat.succ_le_succ hm, .step hmem hd hmentions hpath⟩
    · rintro ⟨m, hm, hpath⟩
      cases hpath with
      | here => exact .inl rfl
      -- the entry that a path leaves by is the one the search looks up, since no other admits the dialect
      | step hmem hd hmentions hrest =>
        have hb := (mem_successors_iff_mentions h).2 ⟨_, hmem, rfl, hd, hmentions⟩
        exact .inr ⟨_, hb, ih.2 ⟨_, Nat.le_of_succ_le_succ hm, hrest⟩⟩

/-- **The cycle search decides reachability.**  After any insertions one name is found from another exactly if a path of
references leads there, of whatever length; and each call on the way, with `n` steps left, finds exactly the paths of
at most `n` references. -/
theorem built_reaches_iff_path (target : Target) (guards : GuardScheme) (offers : List Entry) (d : Dialect)
    (a b : String) :
    ((built target guards offers).reaches d a b = true ↔ ∃ n, (built target guards offers).Path d n a b) ∧
    ∀ n, (built target guards offers).reachesWithin d b n a = true ↔
      ∃ m ≤ n, (built target guards offers).Path d m a b := by
  have hunambiguous : (built target guards offers).Unambiguous :=
    insertAll_unambiguous offers (empty_unambiguous target guards)
  refine ⟨⟨fun h => ?_, fun ⟨n, hpath⟩ => ?_⟩, fun n => reachesWithin_iff_path hunambiguous⟩
  · obtain ⟨n, -, hpath⟩ := (reachesWithin_iff_path hunambiguous).1 h
    exact ⟨n, hpath⟩
  · exact reaches_of_reachesWithin ((reachesWithin_iff_path hunambiguous).2 ⟨n, Nat.le_refl n, hpath⟩)

-- a list whose nodes lead to themselves before they lead on, and whose one way out ends at a name without an entry
example :
    let node : Entry :=
      { name := "node"
        body := .record
          { fields := [{ name := "next", type := ⟨.named "node", false, [false]⟩ },
              { name := "key", type := ⟨.named "key", false, []⟩ }] } }
    let key : Entry := { name := "key", scope := .c, body := .synonym ⟨.named "word", true, [false, true]⟩ }
    let t := built (.ofModel "" .lp64) {} [node, key, { node with scope := .c }]
    t.size = 2 ∧ t.reaches .c "node" "word" = true ∧ t.reaches .c "word" "word" = true ∧
      t.reaches .cxx "node" "word" = false ∧ t.reaches .c "key" "node" = false := by
  decide +kernel

end Table
end CAbi
