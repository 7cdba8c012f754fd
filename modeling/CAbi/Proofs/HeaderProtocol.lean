import CAbi.Proofs.HeaderRun
import CAbi.Proofs.UnitRun
/-!
# HeaderProtocol — a header answers need macros as a unit answers requests

Including a header is requesting, in the order of the table's names, those whose need macro is defined: the preprocessor
passes on the declarations that the unit emits and ends up with the guards that the unit has set
(`Agrees.include_header`).

The two run in step.  Between two lines of the header outside all conditionals, the macros defined are the unit's guards
and a background that no block changes — the need macros, `__cplusplus` for C++, and inside the header the three kinds
the target chose (`Agrees`).  The two sets do not meet as long as no guard is `Reserved`.
-/
namespace CAbi

/-- The macros a header uses for itself. -/
def Header.ownMacros : List String := cxxMacro :: ScalarKind.targetChosen.map (·.spelling)

namespace Table

/-- **A macro that is not to be a guard**: one a header uses, or the need macro of a name. -/
def Reserved (t : Table) (m : String) : Prop := m ∈ Header.ownMacros ∨ ∃ name ∈ t.names, t.guards.needFor name = m

instance (t : Table) (m : String) : Decidable (t.Reserved m) := inferInstanceAs (Decidable (_ ∨ _))

/-- **The macros of the table keep apart**: guards, need macros, and those a header uses for itself. -/
structure Apart (t : Table) : Prop where
  guards : ∀ e ∈ t.entries, ∀ g ∈ t.guards.guardsOf e, ¬t.Reserved g
  needs : ∀ name ∈ t.names, t.guards.needFor name ∉ Header.ownMacros

end Table

namespace CompilationUnit

/-- **The needed names requested**, in the order of the table. -/
def requestNeeded (u : CompilationUnit) (needs : List String) : CompilationUnit :=
  u.requestAll (u.table.names.filter fun name => needs.contains (u.table.guards.needFor name))

/-- **Need after need**: each step adds need macros to those there are and requests what is needed then. -/
def requestEach (u : CompilationUnit) (needs : List String) : List (List String) → CompilationUnit
  | [] => u
  | new :: steps => (u.requestNeeded (needs ++ new)).requestEach (needs ++ new) steps

end CompilationUnit

namespace Preprocessor

def dialectMacros (d : Dialect) : List String := if d = .cxx then [Header.cxxMacro] else []

/-- **Before the first line**, with some guards defined from outside. -/
def State.start (d : Dialect) (guards : List String) : State := { macros := guards ++ dialectMacros d }

/-- **Step after step**: need macros are defined, and the header is included. -/
def includeEach (header : String) : List (List String) → State → Option State
  | [], s => some s
  | needs :: steps, s => do
    let s ← runLines (needs.map .define) s
    let s ← includeText header s
    includeEach header steps s

/-! ## In step -/

/-- **The preprocessor and the unit agree**, apart from the background. -/
structure Agrees (t : Table) (d : Dialect) (background : List String) (s : State) (u : CompilationUnit) : Prop where
  table : u.table = t
  dialect : u.dialect = d
  branches : s.branches = []
  output : s.output = u.emitted.map fun D => (Style.portable.apply t.target D.body).declaration D.name
  macros : ∀ m, m ∈ s.macros ↔ m ∈ background ∨ m ∈ u.guards.list
  unreserved : ∀ g ∈ u.guards.list, ¬t.Reserved g

/-- **What a background is to a header**: reserved macros, among them the one that tells the dialect and, of the need
macros, those that are needed. -/
structure IsBackground (t : Table) (d : Dialect) (needs background : List String) : Prop where
  reserved : ∀ m ∈ background, t.Reserved m
  cxx : Header.cxxMacro ∈ background ↔ d = .cxx
  needs : ∀ name ∈ t.names, (t.guards.needFor name ∈ background ↔ t.guards.needFor name ∈ needs)

theorem isDefined_iff {s : State} {m : String} : s.isDefined m = true ↔ m ∈ s.macros := List.contains_iff_mem

namespace Agrees

variable {t : Table} {d : Dialect} {needs background : List String} {s : State} {u : CompilationUnit}

theorem live (h : Agrees t d background s u) : s.live = true := by
  rw [State.live, h.branches]
  rfl

theorem isDefined_of_reserved (h : Agrees t d background s u) {m : String} (hm : t.Reserved m) :
    s.isDefined m = true ↔ m ∈ background := by
  rw [isDefined_iff, h.macros m]
  exact or_iff_left fun hg => h.unreserved m hg hm

theorem isDefined_of_not_reserved (h : Agrees t d background s u) (hb : ∀ m ∈ background, t.Reserved m) {m : String}
    (hm : ¬t.Reserved m) : s.isDefined m = true ↔ m ∈ u.guards.list := by
  rw [isDefined_iff, h.macros m]
  exact or_iff_right fun hmem => hm (hb m hmem)

/-- **An entry is wanted if its need macro is there and the unit has not defined it.** -/
theorem wants_iff (h : Agrees t d background s u) (hb : ∀ m ∈ background, t.Reserved m) (ht : t.Apart) {name : String}
    {e : Entry} (hl : t.lookup name d = some e) :
    s.wants t.guards e = true ↔ t.guards.needFor name ∈ background ∧ u.isDefined name = false := by
  obtain ⟨hmem, rfl, -⟩ := Table.mem_of_lookup_eq_some hl
  have hneed : t.Reserved (t.guards.needFor e.name) := .inr ⟨e.name, Table.mem_names.2 ⟨e, hmem, rfl⟩, rfl⟩
  have hguards : (t.guards.guardsOf e).any s.isDefined = u.isDefined e.name := by
    rw [Bool.eq_iff_iff, List.any_eq_true, CompilationUnit.isDefined, GuardSet.containsAny_iff, h.table, h.dialect,
      ← Table.definition_guards hl]
    exact exists_congr fun g => and_congr_right fun hg => h.isDefined_of_not_reserved hb (ht.guards e hmem g hg)
  rw [State.wants, Bool.and_eq_true, h.isDefined_of_reserved hneed, hguards, Bool.not_eq_true']

theorem emit (h : Agrees t d background s u) (ht : t.Apart) {e : Entry} (he : e ∈ t.entries)
    (hwants : s.wants t.guards e = true) :
    Agrees t d background (s.offer t.guards e) (u.emit (t.definition d e)) := by
  rw [State.offer, if_pos hwants]
  refine ⟨h.table, h.dialect, h.branches, ?_, fun m => ?_, fun g hg => ?_⟩
  · show s.output ++ [e.body.declaration e.name] = (u.emitted ++ [t.definition d e]).map _
    rw [List.map_append, ← h.output]
    rfl
  · show m ∈ (t.guards.guardsOf e).reverse ++ s.macros ↔
      m ∈ background ∨ m ∈ (u.guards.insertAll (t.guards.guardsOf e)).list
    rw [List.mem_append, List.mem_reverse, h.macros m, GuardSet.mem_insertAll, or_left_comm]
  · rcases GuardSet.mem_insertAll.1 hg with hg | hg
    · exact ht.guards e he g hg
    · exact h.unreserved g hg

/-- **One name**: what the header offers is what the unit answers, if the name is needed. -/
theorem request (h : Agrees t d background s u) (hb : IsBackground t d needs background) (ht : t.Apart) {name : String}
    (hn : name ∈ t.names) :
    Agrees t d background (s.offerAny t.guards (t.lookup name d))
      (if needs.contains (t.guards.needFor name) then u.request name else u) := by
  have hneeded : needs.contains (t.guards.needFor name) = true ↔ t.guards.needFor name ∈ background := by
    rw [List.contains_iff_mem, hb.needs name hn]
  have hrequest := u.request_eq name
  rw [h.table, h.dialect] at hrequest
  cases hl : t.lookup name d with
  | none =>
    have hsame : u.request name = u := by rw [hrequest, hl]; split <;> rfl
    rw [hsame, ite_self]
    exact h
  | some e =>
    have hwants := h.wants_iff hb.reserved ht hl
    by_cases hw : s.wants t.guards e = true
    · obtain ⟨hneed, hdef⟩ := hwants.1 hw
      rw [if_pos (hneeded.2 hneed), hrequest, hdef, hl]
      exact h.emit ht (Table.mem_of_lookup_eq_some hl).1 hw
    · -- not wanted: not needed, or the request finds a guard set
      have hsame : (if needs.contains (t.guards.needFor name) then u.request name else u) = u := by
        split
        · rename_i hneed
          rw [hrequest, if_pos]
          exact Bool.of_not_eq_false fun hdef => hw (hwants.2 ⟨hneeded.1 hneed, hdef⟩)
        · rfl
      rw [hsame]
      show Agrees t d background (s.offer t.guards e) u
      rw [State.offer, if_neg hw]
      exact h

theorem groups (hb : IsBackground t d needs background) (ht : t.Apart) (hu : t.Unambiguous) :
    ∀ {names : List String}, (∀ n ∈ names, n ∈ t.names) → ∀ {s : State} {u : CompilationUnit},
      Agrees t d background s u →
      ∃ s', runLines (names.flatMap fun n => Header.group t.guards (t.entriesOf n)) s = some s' ∧
        Agrees t d background s' (u.requestAll (names.filter fun n => needs.contains (t.guards.needFor n)))
  | [], _, s, _, h => ⟨s, rfl, h⟩
  | name :: names, hsub, s, u, h => by
    rw [List.forall_mem_cons] at hsub
    -- the dialect is told by a macro of the background, which no earlier block can have changed
    have hcxx : s.isDefined Header.cxxMacro = decide (d = .cxx) := by
      rw [Bool.eq_iff_iff, h.isDefined_of_reserved (.inl List.mem_cons_self), hb.cxx, decide_eq_true_iff]
    obtain ⟨s', hrun, h'⟩ := groups hb ht hu hsub.2 (h.request hb ht hsub.1)
    refine ⟨s', ?_, ?_⟩
    · rw [List.flatMap_cons, runLines_append, runLines_group hu hsub.1 h.live hcxx, Option.bind_some, hrun]
    · rw [List.filter_cons]
      split at h' <;> rename_i hneed
      · rw [if_pos hneed]; exact h'
      · rw [if_neg hneed]; exact h'

end Agrees

/-! ## A whole header -/

section

variable {t : Table} {d : Dialect} {needs : List String} {s : State} {u : CompilationUnit}

theorem mem_dialectMacros {m : String} : m ∈ dialectMacros d ↔ m = Header.cxxMacro ∧ d = .cxx := by
  cases d <;> simp [dialectMacros]

/-- The kinds a target chooses, as a header defines them. -/
def chosenMacros : List String := ScalarKind.targetChosen.map (·.spelling)

theorem isBackground_inside (ht : t.Apart) (hneeds : ∀ m ∈ needs, ∃ name ∈ t.names, t.guards.needFor name = m) :
    IsBackground t d needs (chosenMacros ++ (needs ++ dialectMacros d)) := by
  have hchosen : ∀ {m}, m ∈ chosenMacros → m ∈ Header.ownMacros := fun hm => List.mem_cons_of_mem _ hm
  have hcxx : Header.cxxMacro ∈ Header.ownMacros := List.mem_cons_self
  have hown : ∀ m ∈ needs, m ∉ Header.ownMacros := by
    intro m hm
    obtain ⟨name, hn, rfl⟩ := hneeds m hm
    exact ht.needs name hn
  refine ⟨fun m hm => ?_, ?_, fun name hn => ?_⟩
  · rcases List.mem_append.1 hm with hm | hm
    · exact .inl (hchosen hm)
    · rcases List.mem_append.1 hm with hm | hm
      · exact .inr (hneeds m hm)
      · rw [(mem_dialectMacros.1 hm).1]
        exact .inl hcxx
  · rw [List.mem_append, List.mem_append, mem_dialectMacros]
    have hnot : Header.cxxMacro ∉ chosenMacros := by decide
    have hnot' : Header.cxxMacro ∉ needs := fun hm => hown _ hm hcxx
    simp [hnot, hnot']
  · rw [List.mem_append, List.mem_append, mem_dialectMacros]
    have hnot : t.guards.needFor name ∉ chosenMacros := fun hm => ht.needs name hn (hchosen hm)
    have hnot' : t.guards.needFor name ≠ Header.cxxMacro := fun heq => ht.needs name hn (heq ▸ hcxx)
    simp [hnot, hnot']

/-- **Macros defined outside all blocks** join the background. -/
theorem Agrees.define {background wider ms : List String} (h : Agrees t d background s u)
    (hwider : ∀ m, m ∈ wider ↔ m ∈ ms ∨ m ∈ background) :
    Agrees t d wider { s with macros := ms.reverse ++ s.macros } u := by
  refine ⟨h.table, h.dialect, h.branches, h.output, fun m => ?_, h.unreserved⟩
  rw [List.mem_append, List.mem_reverse, h.macros m, hwider, or_assoc]

theorem Agrees.undefine_chosen {background : List String} (h : Agrees t d (chosenMacros ++ background) s u)
    (hb : ∀ m ∈ background, m ∉ chosenMacros) :
    Agrees t d background { s with macros := s.macros.filter fun m => !chosenMacros.contains m } u := by
  refine ⟨h.table, h.dialect, h.branches, h.output, fun m => ?_, h.unreserved⟩
  rw [List.mem_filter, h.macros m, List.mem_append, Bool.not_eq_true', ← Bool.not_eq_true, List.contains_iff_mem]
  refine ⟨fun ⟨hmem, hnot⟩ => hmem.imp_left fun hor => hor.resolve_left hnot, ?_⟩
  rintro (hmem | hg)
  · exact ⟨.inl (.inr hmem), hb m hmem⟩
  · exact ⟨.inr hg, fun hchosen => h.unreserved m hg (.inl (List.mem_cons_of_mem _ hchosen))⟩

/-- **One inclusion requests what is needed.** -/
theorem Agrees.include_header (h : Agrees t d (needs ++ dialectMacros d) s u) (hw : t.InWords) (ht : t.Apart)
    (hu : t.Unambiguous) (hneeds : ∀ m ∈ needs, ∃ name ∈ t.names, t.guards.needFor name = m) :
    ∃ s', includeText t.header s = some s' ∧ Agrees t d (needs ++ dialectMacros d) s' (u.requestNeeded needs) := by
  have hdefines := runLines_defines (fun k => .defineAs k.spelling (t.target.concrete k).spelling) (·.spelling)
    (fun _ _ => rfl) ScalarKind.targetChosen s
  rw [if_pos h.live] at hdefines
  obtain ⟨s', hgroups, h'⟩ := Agrees.groups (isBackground_inside ht hneeds) ht hu (fun _ hn => hn)
    (h.define fun _ => List.mem_append)
  have hlines : Header.lines t =
      (ScalarKind.targetChosen.map fun k => .defineAs k.spelling (t.target.concrete k).spelling) ++ .blank ::
        (t.names.flatMap (fun n => Header.group t.guards (t.entriesOf n)) ++ chosenMacros.map .undefine) := by
    simp [Header.lines, Table.groups, chosenMacros, List.flatMap_map]
  have hrun : runLines (Header.lines t) s =
      some { s' with macros := s'.macros.filter fun m => !chosenMacros.contains m } := by
    rw [hlines, runLines_append, hdefines, Option.bind_some, runLines_cons, step, Option.bind_some, runLines_append]
    exact (congrArg (Option.bind · _) hgroups).trans (runLines_undefines chosenMacros h'.live)
  refine ⟨{ s' with macros := s'.macros.filter fun m => !chosenMacros.contains m }, ?_, ?_⟩
  · rw [Table.header, includeText_textOfLines (readable_header hw), hrun, Option.bind_some, if_pos]
    exact h'.branches.trans h.branches.symm
  · rw [CompilationUnit.requestNeeded, h.table]
    refine h'.undefine_chosen fun m hm => ?_
    rcases List.mem_append.1 hm with hm | hm
    · obtain ⟨name, hn, rfl⟩ := hneeds m hm
      exact fun hchosen => ht.needs name hn (List.mem_cons_of_mem _ hchosen)
    · rw [(mem_dialectMacros.1 hm).1]
      decide

theorem Agrees.include_each (hw : t.InWords) (ht : t.Apart) (hu : t.Unambiguous) :
    ∀ {steps : List (List String)}, (∀ new ∈ steps, ∀ m ∈ new, ∃ name ∈ t.names, t.guards.needFor name = m) →
      ∀ {needs : List String}, (∀ m ∈ needs, ∃ name ∈ t.names, t.guards.needFor name = m) →
      ∀ {s : State} {u : CompilationUnit}, Agrees t d (needs ++ dialectMacros d) s u →
        ∃ s', includeEach t.header steps s = some s' ∧
          Agrees t d (needs ++ steps.flatten ++ dialectMacros d) s' (u.requestEach needs steps)
  | [], _, needs, _, s, u, h => by
    rw [List.flatten_nil, List.append_nil]
    exact ⟨s, rfl, h⟩
  | new :: steps, hsteps, needs, hneeds, s, u, h => by
    rw [List.forall_mem_cons] at hsteps
    have hall : ∀ m ∈ needs ++ new, ∃ name ∈ t.names, t.guards.needFor name = m :=
      List.forall_mem_append.2 ⟨hneeds, hsteps.1⟩
    have hdefines := runLines_defines .define id (fun _ _ => rfl) new s
    rw [if_pos h.live, List.map_id] at hdefines
    have hwider : ∀ m, m ∈ needs ++ new ++ dialectMacros d ↔ m ∈ new ∨ m ∈ needs ++ dialectMacros d := by
      intro m
      simp only [List.mem_append]
      rw [or_comm (a := m ∈ needs), or_assoc]
    -- the needs of all steps so far are the background of this inclusion and of the rest
    obtain ⟨s₁, hinclude, h₁⟩ := (h.define hwider).include_header hw ht hu hall
    obtain ⟨s', hrest, h'⟩ := Agrees.include_each hw ht hu hsteps.2 hall h₁
    refine ⟨s', ?_, ?_⟩
    · rw [includeEach, hdefines, Option.bind_eq_bind, Option.bind_some, hinclude]
      exact hrest
    · rw [List.flatten_cons, ← List.append_assoc]
      exact h'

end

theorem agrees_start {t : Table} {guards : List String} (hguards : ∀ g ∈ guards, ¬t.Reserved g) (d : Dialect)
    (policy : UnknownPolicy) :
    Agrees t d (dialectMacros d) (.start d guards) (guards.foldl CompilationUnit.preset (.fresh t d policy)) := by
  have hset : ∀ m, m ∈ (GuardSet.empty.insertAll guards).list ↔ m ∈ guards := by
    intro m
    rw [GuardSet.mem_insertAll]
    exact or_iff_left List.not_mem_nil
  rw [CompilationUnit.foldl_preset]
  refine ⟨rfl, rfl, rfl, rfl, fun m => ?_, fun g hg => hguards g ((hset g).1 hg)⟩
  exact List.mem_append.trans (or_comm.trans (or_congr_right (hset m).symm))

/-- **A header runs the protocol of a unit.**  Take a table that insertion built, in words of C and with its macros kept
apart, and any steps of defining need macros and including its header, in either dialect, with guards defined from
outside that are not reserved.  The header is read to its end; what is passed on are the portable declarations, in order,
of what a unit emits that has the guards preset and in each step requests the names needed so far; and what is defined
afterwards are the unit's guards, the need macros and the dialect's own macro. -/
theorem header_follows_unit (target : Target) (scheme : GuardScheme) (inserted : List Entry) (d : Dialect)
    (policy : UnknownPolicy) (guards : List String) (steps : List (List String)) :
    let t := ((Table.empty target scheme).insertAll inserted).1
    t.InWords → t.Apart → (∀ g ∈ guards, ¬t.Reserved g) →
    (∀ needs ∈ steps, ∀ m ∈ needs, ∃ name ∈ t.names, t.guards.needFor name = m) →
    let u := (guards.foldl CompilationUnit.preset (.fresh t d policy)).requestEach [] steps
    ∃ s, includeEach t.header steps (.start d guards) = some s ∧
      s.output = u.emitted.map (fun D => (Style.portable.apply t.target D.body).declaration D.name) ∧
      ∀ m, m ∈ s.macros ↔ m ∈ u.guards.list ∨ m ∈ steps.flatten ∨ m = Header.cxxMacro ∧ d = .cxx := by
  intro t hw ht hguards hsteps u
  have hu : t.Unambiguous := Table.insertAll_unambiguous inserted (Table.empty_unambiguous target scheme)
  have hnone : ∀ m ∈ ([] : List String), ∃ name ∈ t.names, t.guards.needFor name = m :=
    fun m hm => absurd hm List.not_mem_nil
  obtain ⟨s, hinclude, h⟩ := Agrees.include_each hw ht hu hsteps hnone (agrees_start hguards d policy)
  refine ⟨s, hinclude, h.output, fun m => ?_⟩
  rw [h.macros m, List.nil_append, List.mem_append, mem_dialectMacros, or_comm]

/-- A name for both dialects, a split one, a record around both, and an entry that insertion leaves out. -/
def threadEntries : List Entry :=
  [{ name := "size_t", body := .synonym (.scalar (.unsigned .addr)) },
   { name := "pthread_t", scope := .c, body := .synonym ⟨.tagged .struct "__pthread", false, [false]⟩ },
   { name := "pthread_t", scope := .cxx, body := .synonym (.scalar (.unsigned .long)) },
   { name := "size_t", scope := .c, body := .synonym (.scalar (.unsigned .long)) },
   { name := "stack_t",
     body := .record { tag := some "stack", fields := [{ name := "owner", type := ⟨.named "pthread_t", false, []⟩ },
       { name := "room", type := ⟨.named "size_t", false, []⟩, length := some (.count 2) }] }
     extraAliases := ["_STACK_T"] }]

theorem threadEntries_spelled : ∀ e ∈ threadEntries, e.body.Spelled := by
  have haddr : CType.ofSpelling "unsigned _Addr" = .ok (.scalar (.unsigned .addr)) := by decide +kernel
  have hlong : CType.ofSpelling "unsigned long" = .ok (.scalar (.unsigned .long)) := by decide +kernel
  have hpointer : CType.ofSpelling "struct __pthread *" = .ok ⟨.tagged .struct "__pthread", false, [false]⟩ := by
    decide +kernel
  have hthread : CType.ofSpelling "pthread_t" = .ok ⟨.named "pthread_t", false, []⟩ := by decide +kernel
  have hsize : CType.ofSpelling "size_t" = .ok ⟨.named "size_t", false, []⟩ := by decide +kernel
  simp only [threadEntries, List.forall_mem_cons]
  refine ⟨⟨?_, by decide, by decide⟩, ⟨?_, by decide, by decide⟩, ⟨?_, by decide, by decide⟩, ⟨?_, by decide, by decide⟩,
    ⟨?_, by decide, by decide⟩, List.forall_mem_nil _⟩
  · exact List.forall_mem_singleton.2 ⟨_, haddr⟩
  · exact List.forall_mem_singleton.2 ⟨_, hpointer⟩
  · exact List.forall_mem_singleton.2 ⟨_, hlong⟩
  · exact List.forall_mem_singleton.2 ⟨_, hlong⟩
  · exact List.forall_mem_cons.2 ⟨⟨_, hthread⟩, List.forall_mem_singleton.2 ⟨_, hsize⟩⟩

theorem header_follows_unit_threads :
    let t := ((Table.empty (.ofModel "host" .lp64) {}).insertAll threadEntries).1
    t.InWords ∧ t.Apart ∧ ∃ s, includeEach t.header [["__NEED_stack_t"], ["__NEED_pthread_t", "__NEED_size_t"]]
        (.start .cxx ["__DEFINED_wchar_t", "__CLANG_SIZE_T_DEFINED"]) = some s ∧
      s.output = ["typedef struct stack \x7b pthread_t owner; size_t room[2]; \x7d stack_t;",
        "typedef unsigned long pthread_t;"] := by
  intro t
  have hsub : ∀ e ∈ t.entries, e ∈ threadEntries := by decide
  have hwords : t.InWords :=
    ⟨by decide, by decide, by decide, fun e he => threadEntries_spelled e (hsub e he)⟩
  have hapart : t.Apart := ⟨by decide, by decide⟩
  obtain ⟨s, hrun, hout, -⟩ := header_follows_unit (.ofModel "host" .lp64) {} threadEntries .cxx .ignore
    ["__DEFINED_wchar_t", "__CLANG_SIZE_T_DEFINED"] [["__NEED_stack_t"], ["__NEED_pthread_t", "__NEED_size_t"]]
    hwords hapart (by decide) (by decide)
  exact ⟨hwords, hapart, s, hrun, hout.trans (by decide)⟩

end Preprocessor
end CAbi
