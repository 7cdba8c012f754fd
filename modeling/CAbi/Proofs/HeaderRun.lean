import CAbi.Header
import CAbi.Proofs.DeclarationLine
import CAbi.Proofs.Insertion
import CAbi.Proofs.Preprocessor
/-!
# HeaderRun — what the preprocessor does with a header's parts

A block that is read offers its entry: if the need macro is defined and no guard is, the declaration is passed on and the
guards are defined (`State.offer`).  Whether it is read is decided by the conditionals around it, so that of the entries
of one name exactly the one for the dialect is offered (`runLines_group`).
-/
namespace CAbi
namespace Preprocessor

/-! ## Lines one after the other -/

theorem runLines_cons (l : SourceLine) (ls : List SourceLine) (s : State) :
    runLines (l :: ls) s = (step s l).bind (runLines ls) := List.foldlM_cons

theorem runLines_append (xs ys : List SourceLine) (s : State) :
    runLines (xs ++ ys) s = (runLines xs s).bind (runLines ys) := List.foldlM_append

/-- **A run of lines that each define a macro**, with or without a value. -/
theorem runLines_defines {α : Type} (line : α → SourceLine) (name : α → String)
    (hline : ∀ x s, step s (line x) = step s (.define (name x))) : ∀ (xs : List α) (s : State),
    runLines (xs.map line) s = some (if s.live then { s with macros := (xs.map name).reverse ++ s.macros } else s)
  | [], s => by cases s.live <;> rfl
  | x :: xs, s => by
    rw [List.map_cons, runLines_cons, hline, step, Option.bind_some, runLines_defines line name hline xs]
    by_cases hlive : s.live = true
    · have hlive' : State.live { s with macros := name x :: s.macros } = true := hlive
      rw [if_pos hlive, if_pos hlive, if_pos hlive', List.map_cons, List.reverse_cons, List.append_assoc]
      rfl
    · rw [if_neg hlive, if_neg hlive, if_neg hlive]

theorem runLines_undefines : ∀ (ms : List String) {s : State}, s.live = true →
    runLines (ms.map .undefine) s = some { s with macros := s.macros.filter fun m => !ms.contains m }
  | [], s, _ => by
    have hall : s.macros.filter (fun m => !([] : List String).contains m) = s.macros :=
      List.filter_eq_self.2 fun _ _ => rfl
    rw [hall]
    rfl
  | m :: ms, s, hlive => by
    have hrest := runLines_undefines ms (s := { s with macros := s.macros.filter (· != m) }) hlive
    rw [List.map_cons, runLines_cons, step, if_pos hlive, Option.bind_some, hrest, List.filter_filter]
    congr 3
    funext x
    rw [List.contains_cons, Bool.not_or, Bool.and_comm]
    rfl

namespace State

variable (s : State) (scheme : GuardScheme) (e : Entry)

/-- The need macro of the entry is defined and none of its guards is. -/
def wants : Bool := s.isDefined (scheme.needFor e.name) && !(scheme.guardsOf e).any s.isDefined

/-- **An entry offered**: where it is wanted, it is declared and its guards are defined. -/
def offer : State :=
  if s.wants scheme e then
    { s with
      macros := (scheme.guardsOf e).reverse ++ s.macros
      output := s.output ++ [e.body.declaration e.name] }
  else s

/-- What may be there is offered. -/
def offerAny (o : Option Entry) : State := o.elim s (s.offer scheme)

theorem branches_offer : (s.offer scheme e).branches = s.branches := by
  unfold offer
  split <;> rfl

theorem branches_offerAny (o : Option Entry) : (s.offerAny scheme o).branches = s.branches := by
  cases o with
  | none => rfl
  | some e => exact s.branches_offer scheme e

theorem live_offerAny (o : Option Entry) : (s.offerAny scheme o).live = s.live := by
  rw [live, branches_offerAny, live]

theorem live_enter (b : Branch) : (s.enter b).live = (b.taken && s.live) := rfl

theorem offer_enter (b : Branch) : (s.enter b).offer scheme e = (s.offer scheme e).enter b := by
  unfold offer
  by_cases h : s.wants scheme e = true
  · have h' : (s.enter b).wants scheme e = true := h
    rw [if_pos h, if_pos h']
    rfl
  · have h' : ¬(s.enter b).wants scheme e = true := h
    rw [if_neg h, if_neg h']

end State

/-! ## Blocks and groups -/

variable (scheme : GuardScheme)

theorem runLines_declares (text : String) (guards : List String) (s : State) :
    runLines (.code text :: guards.map .define) s =
      some (if s.live then { s with macros := guards.reverse ++ s.macros, output := s.output ++ [text] } else s) := by
  rw [runLines_cons, step, Option.bind_some, runLines_defines .define id fun _ _ => rfl, List.map_id]
  by_cases hlive : s.live = true
  · have hlive' : State.live { s with output := s.output ++ [text] } = true := hlive
    rw [if_pos hlive, if_pos hlive', if_pos hlive]
  · rw [if_neg hlive, if_neg hlive, if_neg hlive]

/-- **A block that is read offers its entry; one that is not does nothing.** -/
theorem runLines_block (e : Entry) (s : State) :
    runLines (Header.block scheme e) s = some (if s.live then s.offer scheme e else s) := by
  have hopen : step s (.ifNeeded (scheme.needFor e.name) (scheme.guardsOf e)) =
      some (s.enter ⟨s.wants scheme e, false⟩) := rfl
  have hblock : Header.block scheme e = .ifNeeded (scheme.needFor e.name) (scheme.guardsOf e) ::
      ((.code (e.body.declaration e.name) :: (scheme.guardsOf e).map .define) ++ [.endIf, .blank]) := rfl
  rw [hblock, runLines_cons, hopen, Option.bind_some, runLines_append, runLines_declares, Option.bind_some,
    State.live_enter]
  by_cases hlive : s.live = true
  · by_cases hwants : s.wants scheme e = true
    · rw [hwants, hlive, State.offer, if_pos hwants]
      rfl
    · rw [Bool.not_eq_true] at hwants
      rw [hwants, hlive, State.offer, hwants]
      rfl
  · rw [Bool.not_eq_true] at hlive
    rw [hlive, Bool.and_false]
    rfl

theorem runLines_block_enter (e : Entry) {s : State} (hlive : s.live = true) (b : Branch) :
    runLines (Header.block scheme e) (s.enter b) = some ((if b.taken then s.offer scheme e else s).enter b) := by
  rw [runLines_block, State.live_enter, hlive, Bool.and_true, State.offer_enter]
  split <;> rfl

theorem runLines_blockFor_enter (scope : Scope) (es : List Entry) {s : State} (hlive : s.live = true) (b : Branch) :
    runLines (Header.blockFor scheme scope es) (s.enter b) =
      some ((if b.taken then s.offerAny scheme (es.find? fun e => e.scope = scope) else s).enter b) := by
  unfold Header.blockFor
  cases es.find? fun e => e.scope = scope with
  | none => cases b.taken <;> rfl
  | some e => exact runLines_block_enter scheme e hlive b

theorem runLines_guarded_block (e : Entry) {l : SourceLine} {b : Branch} {s : State} (hlive : s.live = true)
    (hl : step s l = some (s.enter b)) :
    runLines (l :: Header.block scheme e ++ [.endIf, .blank]) s =
      some (if b.taken then s.offer scheme e else s) := by
  rw [List.cons_append, runLines_cons, hl, Option.bind_some, runLines_append, runLines_block_enter scheme e hlive,
    Option.bind_some]
  rfl

/-- The two entries of a split name: one part is read. -/
theorem runLines_split (es : List Entry) {s : State} (hlive : s.live = true) :
    runLines (.ifDefined Header.cxxMacro :: Header.blockFor scheme .cxx es ++
        .otherwise :: Header.blockFor scheme .c es ++ [.endIf, .blank]) s =
      some (s.offerAny scheme (es.find? fun e => e.scope = if s.isDefined Header.cxxMacro then .cxx else .c)) := by
  have hotherwise : ∀ (s : State) taken, step (s.enter ⟨taken, false⟩) .otherwise = some (s.enter ⟨!taken, true⟩) :=
    fun _ _ => rfl
  rw [List.append_assoc, List.cons_append, runLines_cons, step, Option.bind_some, runLines_append,
    runLines_blockFor_enter scheme .cxx es hlive, Option.bind_some, List.cons_append, runLines_cons, hotherwise,
    Option.bind_some, runLines_append]
  cases s.isDefined Header.cxxMacro with
  | true =>
    -- the second part is not read, but it starts from what the first one left
    have hlive' := (s.live_offerAny scheme (es.find? fun e => e.scope = .cxx)).trans hlive
    exact congrArg (Option.bind · _) (runLines_blockFor_enter scheme .c es hlive' ⟨false, true⟩)
  | false => exact congrArg (Option.bind · _) (runLines_blockFor_enter scheme .c es hlive ⟨true, true⟩)

/-- **Of the entries of a name, the one for the dialect is offered.** -/
theorem runLines_group {t : Table} (h : t.Unambiguous) {name : String} (hn : name ∈ t.names) {d : Dialect} {s : State}
    (hlive : s.live = true) (hcxx : s.isDefined Header.cxxMacro = decide (d = .cxx)) :
    runLines (Header.group t.guards (t.entriesOf name)) s = some (s.offerAny t.guards (t.lookup name d)) := by
  rw [Table.lookup_eq_find?_entriesOf]
  rcases Table.entriesOf_cases h hn with ⟨e, he⟩ | ⟨a, b, hab, hscopes⟩
  · rw [he]
    unfold Header.group
    cases hscope : e.scope with
    | any =>
      simp only [runLines_block, hlive, List.find?_cons, hscope, Scope.admits]
      rfl
    | c =>
      simp only [hscope]
      rw [runLines_guarded_block t.guards e hlive rfl, hcxx]
      cases d <;> simp [Scope.admits, hscope, State.offerAny]
    | cxx =>
      simp only [hscope]
      rw [runLines_guarded_block t.guards e hlive rfl, hcxx]
      cases d <;> simp [Scope.admits, hscope, State.offerAny]
  · rw [hab]
    refine (runLines_split t.guards [a, b] hlive).trans ?_
    rw [hcxx]
    rcases hscopes with ⟨ha, hb⟩ | ⟨ha, hb⟩ <;> cases d <;> simp [Scope.admits, ha, hb]

/-! ## The text of a header -/

end Preprocessor

/-- **A table in words of C**: an accepted guard scheme, and identifiers wherever an entry has a word. -/
structure Table.InWords (t : Table) : Prop where
  scheme : t.guards.defects = []
  names : ∀ e ∈ t.entries, Identifier.valid e.name.toList = true
  aliases : ∀ e ∈ t.entries, ∀ g ∈ e.extraAliases, Identifier.valid g.toList = true
  bodies : ∀ e ∈ t.entries, e.body.Spelled

namespace Preprocessor

section

variable {t : Table}

theorem readable_block (h : t.InWords) {e : Entry} (he : e ∈ t.entries) : ∀ l ∈ Header.block t.guards e, Readable l := by
  have hname := h.names e he
  have hguards : ∀ g ∈ t.guards.guardsOf e, Identifier.valid g.toList = true :=
    GuardScheme.valid_of_mem_guardsOf h.scheme hname (h.aliases e he)
  have hcode : Readable (.code (e.body.declaration e.name)) :=
    ⟨(h.bodies e he).newline_not_mem_declaration hname, e.body.declaration_keyword e.name⟩
  intro l hl
  simp only [Header.block, List.mem_append, List.mem_cons, List.mem_map, List.not_mem_nil, or_false] at hl
  rcases hl with ((rfl | rfl) | ⟨g, hg, rfl⟩) | rfl | rfl
  · exact ⟨GuardScheme.valid_needFor h.scheme hname, hguards⟩
  · exact hcode
  · exact hguards g hg
  · exact trivial
  · exact trivial

theorem readable_blockFor {scheme : GuardScheme} {es : List Entry}
    (h : ∀ e ∈ es, ∀ l ∈ Header.block scheme e, Readable l) (scope : Scope) :
    ∀ l ∈ Header.blockFor scheme scope es, Readable l := by
  unfold Header.blockFor
  cases hfind : es.find? fun e => e.scope = scope with
  | none => exact fun l hl => absurd hl List.not_mem_nil
  | some e => exact h e (List.mem_of_find?_eq_some hfind)

theorem readable_group {scheme : GuardScheme} {es : List Entry}
    (h : ∀ e ∈ es, ∀ l ∈ Header.block scheme e, Readable l) : ∀ l ∈ Header.group scheme es, Readable l := by
  have hcxx : Identifier.valid Header.cxxMacro.toList = true := by decide
  have hend : ∀ l ∈ [SourceLine.endIf, .blank], Readable l :=
    List.forall_mem_cons.2 ⟨trivial, List.forall_mem_singleton.2 trivial⟩
  unfold Header.group
  split
  · rename_i e
    have hblock := h e (List.mem_singleton.2 rfl)
    split
    · exact hblock
    · exact List.forall_mem_append.2 ⟨List.forall_mem_cons.2 ⟨hcxx, hblock⟩, hend⟩
    · exact List.forall_mem_append.2 ⟨List.forall_mem_cons.2 ⟨hcxx, hblock⟩, hend⟩
  · have hopen : Readable (.ifDefined Header.cxxMacro) := hcxx
    have helse : Readable .otherwise := trivial
    have hfirst := List.forall_mem_cons.2 ⟨hopen, readable_blockFor h .cxx⟩
    have hsecond := List.forall_mem_cons.2 ⟨helse, readable_blockFor h .c⟩
    exact List.forall_mem_append.2 ⟨List.forall_mem_append.2 ⟨hfirst, hsecond⟩, hend⟩

/-- **Every line of a header is read back.** -/
theorem readable_header (h : t.InWords) : ∀ l ∈ Header.lines t, Readable l := by
  have hchosen : ∀ k ∈ ScalarKind.targetChosen, Identifier.valid k.spelling.toList = true := by decide
  intro l hl
  simp only [Header.lines, List.mem_append, List.mem_map, List.mem_singleton, List.mem_flatMap] at hl
  rcases hl with ((⟨k, hk, rfl⟩ | rfl) | ⟨es, hes, hl⟩) | ⟨k, hk, rfl⟩
  · exact ⟨hchosen k hk, ScalarKind.newline_not_mem_spelling _⟩
  · exact trivial
  · obtain ⟨name, -, rfl⟩ := List.mem_map.1 hes
    exact readable_group (fun e he => readable_block h (Table.mem_entriesOf.1 he).1) l hl
  · exact hchosen k hk

end

end Preprocessor
end CAbi
