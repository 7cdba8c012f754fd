import CAbi.CompilationUnit
import CAbi.Proofs.Guards
import CAbi.Proofs.Insertion
/-!
# UnitRun — what holds of a unit after any operations

A unit is driven by five operations in any order and number.  A request looks at the guards of the name
(`Table.guardsOf`) and sets the guards of the definition (`Definition.guards`): two places that have to agree, and do
(`definition_guards`).  On that rests the rest.

Two facts are carried through a run.  `Extends` compares the unit before and after: nothing is taken back, and what is
emitted meanwhile has no guard that was set before.  `Sound` describes one unit: whose guards are set, and that no two
definitions share one.  Each is proved of one operation and then of a run.
-/
namespace CAbi

/-- **What a unit can be asked to do.** -/
inductive Operation where
  | preset (guard : String)
  | request (name : String)
  | requestAll (names : List String)
  | tryRequest (name : String)
  | markDefined (name : String)
  deriving DecidableEq, Repr

/-- **The guard came from outside**: it was preset, or is a guard of a name that was marked as defined. -/
def FromOutside (t : Table) (d : Dialect) (ops : List Operation) (g : String) : Prop :=
  .preset g ∈ ops ∨ ∃ name, .markDefined name ∈ ops ∧ g ∈ t.guardsOf d name

theorem fromOutside_append {t : Table} {d : Dialect} {xs ys : List Operation} {g : String} :
    FromOutside t d (xs ++ ys) g ↔ FromOutside t d xs g ∨ FromOutside t d ys g := by
  simp only [FromOutside, List.mem_append, or_and_right, exists_or]
  exact or_or_or_comm

/-- **An entry as the definition of its name.** -/
def Table.definition (t : Table) (d : Dialect) (e : Entry) : Definition :=
  ⟨e.name, d, e.body, t.guards.guardsOf e, t.bodyLayout d e.body⟩

theorem Table.resolve_of_lookup {t : Table} {d : Dialect} {name : String} {e : Entry} (h : t.lookup name d = some e) :
    t.resolve d name = .defined (t.definition d e) := by
  simp only [resolve, h, definition]

/-- **The guards that are looked at are the guards that are set.** -/
theorem Table.definition_guards {t : Table} {d : Dialect} {name : String} {e : Entry} (h : t.lookup name d = some e) :
    (t.definition d e).guards = t.guardsOf d name := by
  simp only [definition, guardsOf, h]

namespace CompilationUnit

/-- The unit after an operation. -/
def perform (u : CompilationUnit) : Operation → CompilationUnit
  | .preset guard => u.preset guard
  | .request name => u.request name
  | .requestAll names => u.requestAll names
  | .tryRequest name => (u.tryRequest name).2
  | .markDefined name => u.markDefined name

/-- **The unit after operations, one after the other.** -/
def run (u : CompilationUnit) (ops : List Operation) : CompilationUnit := ops.foldl perform u

/-- **A request**: a name none of whose guards is set is answered by its definition, if the table has one. -/
theorem request_eq (u : CompilationUnit) (name : String) :
    u.request name = if u.isDefined name then u
      else (u.table.lookup name u.dialect).elim u fun e => u.emit (u.table.definition u.dialect e) := by
  unfold request tryRequest
  by_cases hdef : u.isDefined name = true
  · rw [if_pos hdef, if_pos hdef]
  · rw [if_neg hdef, if_neg hdef]
    cases hl : u.table.lookup name u.dialect with
    | some e => simp only [Table.resolve, hl, Table.definition, Option.elim_some]
    | none =>
      simp only [Table.resolve, hl]
      cases u.table.contains name <;> cases u.policy <;> rfl

/-- **What a request can do**: nothing, or emit the definition of a name none of whose guards is set. -/
theorem request_cases (u : CompilationUnit) (name : String) :
    u.request name = u ∨ ∃ e, u.table.lookup name u.dialect = some e ∧ u.isDefined name = false ∧
      u.request name = u.emit (u.table.definition u.dialect e) := by
  rw [request_eq]
  by_cases hdef : u.isDefined name = true
  · exact .inl (if_pos hdef)
  · rw [if_neg hdef]
    cases hl : u.table.lookup name u.dialect with
    | none => exact .inl rfl
    | some e => exact .inr ⟨e, rfl, Bool.not_eq_true _ ▸ hdef, rfl⟩

theorem guards_of_not_isDefined {u : CompilationUnit} {name : String} (h : u.isDefined name = false) :
    ∀ g ∈ u.table.guardsOf u.dialect name, g ∉ u.guards.list := by
  intro g hg hset
  have : u.isDefined name = true := GuardSet.containsAny_iff.2 ⟨g, hg, hset⟩
  rw [h] at this
  cases this

theorem foldl_preset (guards : List String) (u : CompilationUnit) :
    guards.foldl preset u = { u with guards := u.guards.insertAll guards } := by
  induction guards generalizing u with
  | nil => rfl
  | cons g guards ih => exact ih (u.preset g)

/-! ## Before and after -/

/-- **The unit `v` comes after `u`**: same table and options, no guard and no definition taken back, and no definition
added that has a guard set in `u`. -/
structure Extends (u v : CompilationUnit) : Prop where
  table : v.table = u.table
  dialect : v.dialect = u.dialect
  policy : v.policy = u.policy
  guards : ∀ g ∈ u.guards.list, g ∈ v.guards.list
  emitted : ∃ new, v.emitted = u.emitted ++ new ∧ ∀ D ∈ new, ∀ g ∈ D.guards, g ∉ u.guards.list

namespace Extends

theorem refl (u : CompilationUnit) : u.Extends u :=
  ⟨rfl, rfl, rfl, fun _ h => h, [], (List.append_nil _).symm, fun _ h => by cases h⟩

theorem trans {u v w : CompilationUnit} (huv : u.Extends v) (hvw : v.Extends w) : u.Extends w := by
  obtain ⟨new, hnew, hfresh⟩ := huv.emitted
  obtain ⟨new', hnew', hfresh'⟩ := hvw.emitted
  refine ⟨hvw.table.trans huv.table, hvw.dialect.trans huv.dialect, hvw.policy.trans huv.policy,
    fun g hg => hvw.guards g (huv.guards g hg), new ++ new', ?_, fun D hD g hg hset => ?_⟩
  · rw [hnew', hnew, List.append_assoc]
  · rcases List.mem_append.1 hD with hD | hD
    · exact hfresh D hD g hg hset
    · exact hfresh' D hD g hg (huv.guards g hset)

end Extends

theorem extends_insertAll (u : CompilationUnit) (gs : List String) :
    u.Extends { u with guards := u.guards.insertAll gs } :=
  ⟨rfl, rfl, rfl, fun _ h => GuardSet.mem_insertAll.2 (.inr h), [], (List.append_nil _).symm, fun _ h => by cases h⟩

theorem extends_request (u : CompilationUnit) (name : String) : u.Extends (u.request name) := by
  rcases u.request_cases name with h | ⟨e, hl, hdef, h⟩
  · rw [h]; exact .refl u
  · rw [h]
    refine ⟨rfl, rfl, rfl, fun _ hg => GuardSet.mem_insertAll.2 (.inr hg), _, rfl, fun D hD g hg => ?_⟩
    rw [List.mem_singleton.1 hD, Table.definition_guards hl] at hg
    exact guards_of_not_isDefined hdef g hg

theorem extends_requestAll (names : List String) (u : CompilationUnit) : u.Extends (u.requestAll names) := by
  induction names generalizing u with
  | nil => exact .refl u
  | cons name names ih => exact (u.extends_request name).trans (ih _)

theorem extends_perform (u : CompilationUnit) (op : Operation) : u.Extends (u.perform op) := by
  cases op with
  | preset guard => exact u.extends_insertAll [guard]
  | request name => exact u.extends_request name
  | requestAll names => exact u.extends_requestAll names
  | tryRequest name => exact u.extends_request name
  | markDefined name => exact u.extends_insertAll _

/-- **A run takes nothing back.** -/
theorem extends_run (ops : List Operation) (u : CompilationUnit) : u.Extends (u.run ops) := by
  induction ops generalizing u with
  | nil => exact .refl u
  | cons op ops ih => exact (u.extends_perform op).trans (ih _)

theorem run_append (u : CompilationUnit) (xs ys : List Operation) : u.run (xs ++ ys) = (u.run xs).run ys :=
  List.foldl_append

/-! ## What is emitted -/

/-- **Every definition emitted is the one the table has for its name.** -/
def FromTable (u : CompilationUnit) : Prop := ∀ D ∈ u.emitted, u.table.resolve u.dialect D.name = .defined D

theorem fromTable_request {u : CompilationUnit} (h : u.FromTable) (name : String) : (u.request name).FromTable := by
  rcases u.request_cases name with hr | ⟨e, hl, -, hr⟩
  · rw [hr]; exact h
  · rw [hr]
    intro D hD
    rcases List.mem_append.1 hD with hD | hD
    · exact h D hD
    · rw [← (Table.mem_of_lookup_eq_some hl).2.1] at hl
      rw [List.mem_singleton.1 hD]
      exact Table.resolve_of_lookup hl

theorem fromTable_requestAll (names : List String) {u : CompilationUnit} (h : u.FromTable) :
    (u.requestAll names).FromTable := by
  induction names generalizing u with
  | nil => exact h
  | cons name names ih => exact ih (fromTable_request h name)

theorem fromTable_perform {u : CompilationUnit} (h : u.FromTable) (op : Operation) : (u.perform op).FromTable := by
  cases op with
  | preset guard => exact h
  | request name => exact fromTable_request h name
  | requestAll names => exact fromTable_requestAll names h
  | tryRequest name => exact fromTable_request h name
  | markDefined name => exact h

theorem fromTable_run (ops : List Operation) {u : CompilationUnit} (h : u.FromTable) : (u.run ops).FromTable := by
  induction ops generalizing u with
  | nil => exact h
  | cons op ops ih => exact ih (fromTable_perform h op)

/-! ## Whose guards are set -/

/-- **The guards set are those from outside and those of the definitions**, and no two definitions share one. -/
structure Sound (outside : String → Prop) (u : CompilationUnit) : Prop where
  guards_eq : ∀ D ∈ u.emitted, D.guards = u.table.guardsOf u.dialect D.name
  disjoint : u.emitted.Pairwise fun A B => ∀ g ∈ A.guards, g ∉ B.guards
  set_iff : ∀ g, g ∈ u.guards.list ↔ outside g ∨ ∃ D ∈ u.emitted, g ∈ D.guards

theorem sound_insertAll {outside : String → Prop} {u : CompilationUnit} (h : u.Sound outside) (gs : List String) :
    Sound (fun g => outside g ∨ g ∈ gs) { u with guards := u.guards.insertAll gs } := by
  refine ⟨h.guards_eq, h.disjoint, fun g => ?_⟩
  show g ∈ (u.guards.insertAll gs).list ↔ _
  rw [GuardSet.mem_insertAll, h.set_iff g, or_assoc, or_left_comm]

theorem sound_request {outside : String → Prop} {u : CompilationUnit} (h : u.Sound outside) (name : String) :
    (u.request name).Sound outside := by
  rcases u.request_cases name with hr | ⟨e, hl, hdef, hr⟩
  · rw [hr]; exact h
  · rw [hr]
    have hname : e.name = name := (Table.mem_of_lookup_eq_some hl).2.1
    have hgs := Table.definition_guards hl
    have hfresh := guards_of_not_isDefined hdef
    refine ⟨fun D hD => ?_, List.pairwise_append.2 ⟨h.disjoint, List.pairwise_singleton _ _, ?_⟩, fun g => ?_⟩
    · rcases List.mem_append.1 hD with hD | hD
      · exact h.guards_eq D hD
      · rw [List.mem_singleton.1 hD, hgs]
        exact congrArg _ hname.symm
    · -- a guard of an older definition is set, and the request looked at the guards it is about to set
      intro A hA B hB g hgA hgB
      rw [List.mem_singleton.1 hB, hgs] at hgB
      exact hfresh g hgB ((h.set_iff g).2 (.inr ⟨A, hA, hgA⟩))
    · show g ∈ (u.guards.insertAll _).list ↔ outside g ∨ ∃ D ∈ u.emitted ++ [_], g ∈ D.guards
      rw [GuardSet.mem_insertAll, h.set_iff g]
      simp only [List.mem_append, List.mem_singleton, or_and_right, exists_or, exists_eq_left]
      rw [or_comm, or_assoc]

theorem sound_requestAll {outside : String → Prop} (names : List String) {u : CompilationUnit} (h : u.Sound outside) :
    (u.requestAll names).Sound outside := by
  induction names generalizing u with
  | nil => exact h
  | cons name names ih => exact ih (sound_request h name)

theorem sound_perform {ops : List Operation} {u : CompilationUnit}
    (h : u.Sound (FromOutside u.table u.dialect ops)) (op : Operation) :
    (u.perform op).Sound (FromOutside u.table u.dialect (ops ++ [op])) := by
  have hiff : ∀ g, FromOutside u.table u.dialect (ops ++ [op]) g ↔ _ := fun g => fromOutside_append
  have hcongr : ∀ {outside : String → Prop} {v : CompilationUnit}, v.Sound outside →
      (∀ g, FromOutside u.table u.dialect (ops ++ [op]) g ↔ outside g) →
      v.Sound (FromOutside u.table u.dialect (ops ++ [op])) := fun hv heq =>
    ⟨hv.guards_eq, hv.disjoint, fun g => by rw [hv.set_iff g, heq g]⟩
  cases op with
  | preset guard =>
    exact hcongr (sound_insertAll h [guard]) fun g => by rw [hiff g]; simp [FromOutside]
  | request name => exact hcongr (sound_request h name) fun g => by rw [hiff g]; simp [FromOutside]
  | requestAll names => exact hcongr (sound_requestAll names h) fun g => by rw [hiff g]; simp [FromOutside]
  | tryRequest name => exact hcongr (sound_request h name) fun g => by rw [hiff g]; simp [FromOutside]
  | markDefined name => exact hcongr (sound_insertAll h _) fun g => by rw [hiff g]; simp [FromOutside]

/-- A unit in which nothing has happened. -/
def fresh (t : Table) (d : Dialect) (policy : UnknownPolicy) : CompilationUnit :=
  { table := t, dialect := d, policy := policy }

theorem sound_run_from (ops before : List Operation) {u : CompilationUnit}
    (h : u.Sound (FromOutside u.table u.dialect before)) :
    (u.run ops).Sound (FromOutside u.table u.dialect (before ++ ops)) := by
  induction ops generalizing before u with
  | nil => rw [List.append_nil]; exact h
  | cons op ops ih =>
    have hext := u.extends_perform op
    have hstep := sound_perform h op
    rw [← hext.table, ← hext.dialect] at hstep
    have hrest := ih (before ++ [op]) hstep
    rw [hext.table, hext.dialect, List.append_assoc] at hrest
    exact hrest

/-- **A run from a fresh unit is sound.** -/
theorem sound_run (t : Table) (d : Dialect) (policy : UnknownPolicy) (ops : List Operation) :
    ((fresh t d policy).run ops).Sound (FromOutside t d ops) := by
  refine sound_run_from ops [] (u := fresh t d policy) ⟨fun _ h => ?_, List.Pairwise.nil, fun g => ?_⟩
  · cases h
  · simp [fresh, FromOutside, GuardSet.empty]

/-- Definitions that share no guard have different names: a name has its primary guard. -/
theorem Sound.names_nodup {outside : String → Prop} {u : CompilationUnit} (h : u.Sound outside) :
    (u.emitted.map (·.name)).Nodup := by
  rw [List.Nodup, List.pairwise_map]
  refine h.disjoint.imp_of_mem fun {A B} hA hB hAB hname => ?_
  have hmem := u.table.primaryFor_mem_guardsOf u.dialect A.name
  refine hAB (u.table.guards.primaryFor A.name) ?_ ?_
  · rw [h.guards_eq A hA]; exact hmem
  · rw [h.guards_eq B hB, ← hname]; exact hmem

/-- **Each name is defined once.**  Whatever a fresh unit is asked to do: no name is defined twice; every guard of every
definition is set; no two definitions share a guard; a definition emitted after the first `n` operations has no guard
that they set from outside; and the guards set are those from outside and those of the definitions, no others. -/
theorem run_defines_once (t : Table) (d : Dialect) (policy : UnknownPolicy) (ops : List Operation) :
    let u := (fresh t d policy).run ops
    (u.emitted.map (·.name)).Nodup ∧
    (∀ D ∈ u.emitted, ∀ g ∈ D.guards, u.guards.contains g = true) ∧
    (u.emitted.Pairwise fun A B => ∀ g ∈ A.guards, g ∉ B.guards) ∧
    (∀ n, ∃ new, u.emitted = ((fresh t d policy).run (ops.take n)).emitted ++ new ∧
      ∀ D ∈ new, ∀ g ∈ D.guards, ¬FromOutside t d (ops.take n) g) ∧
    (∀ g, u.guards.contains g = true ↔ FromOutside t d ops g ∨ ∃ D ∈ u.emitted, g ∈ D.guards) := by
  intro u
  have hu : u.Sound (FromOutside t d ops) := sound_run t d policy ops
  refine ⟨hu.names_nodup, fun D hD g hg => ?_, hu.disjoint, fun n => ?_, fun g => ?_⟩
  · exact GuardSet.contains_iff.2 ((hu.set_iff g).2 (.inr ⟨D, hD, hg⟩))
  · obtain ⟨new, hnew, hfresh⟩ := (extends_run (ops.drop n) ((fresh t d policy).run (ops.take n))).emitted
    refine ⟨new, ?_, fun D hD g hg hout => ?_⟩
    · rw [← hnew, ← run_append, List.take_append_drop]
    · exact hfresh D hD g hg (((sound_run t d policy (ops.take n)).set_iff g).2 (.inl hout))
  · rw [GuardSet.contains_iff]
    exact hu.set_iff g

end CompilationUnit
end CAbi
