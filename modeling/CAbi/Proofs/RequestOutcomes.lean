import CAbi.Proofs.EntriesByName
import CAbi.Proofs.KnownLayouts
import CAbi.Proofs.RepeatedRequests
import CAbi.Vocabulary
/-!
# RequestOutcomes — what a request will answer, known before it is made

Two checks look at a table only: `checkRequests`, made before a strict unit asks for anything, and `missingWords`, made
for a whole vocabulary.  A request looks at guards, dialect and policy as well, and at a unit that has been through
anything.  What ties them together is that a request fails for one reason only (`tryRequest_eq_error_iff`), and that a
name with an entry is defined by its request and stays so (`isDefined_of_settled`).

The first check asks for the names of a table, whatever their dialect.  These are the names that were ever offered
(`contains_built`): an offer that is turned down was in conflict with an entry of its name.
-/
namespace CAbi

namespace Table

variable {t : Table} {name : String}

theorem contains_of_insert_error {e : Entry} {defect : Defect} (h : t.insert e = .error defect) :
    t.contains e.name = true := by
  unfold insert at h
  split at h
  · rename_i old hold
    obtain ⟨hmem, hname⟩ := mem_entriesOf.1 (List.mem_of_find?_eq_some hold)
    exact contains_iff.2 ⟨old, hmem, hname⟩
  · cases h

theorem contains_insertAll (offers : List Entry) (t : Table) :
    (t.insertAll offers).1.contains name = true ↔ t.contains name = true ∨ ∃ e ∈ offers, e.name = name := by
  induction offers generalizing t with
  | nil => simp [insertAll]
  | cons e offers ih =>
    simp only [List.exists_mem_cons_iff, ← or_assoc]
    unfold insertAll
    split
    · rename_i t' hok
      obtain ⟨-, rfl⟩ := insert_eq_ok_iff.1 hok
      rw [ih]
      simp [contains]
    · -- the name of an offer that is turned down is there already
      rename_i defect herror
      rw [ih]
      refine or_congr_left ⟨Or.inl, fun h => h.elim id fun hname => ?_⟩
      rw [← hname]
      exact contains_of_insert_error herror

theorem contains_built {target : Target} {guards : GuardScheme} {offers : List Entry} :
    (built target guards offers).contains name = true ↔ ∃ e ∈ offers, e.name = name := by
  unfold built
  rw [contains_insertAll]
  simp [empty, contains]

theorem lookup_eq_none_of_not_contains (h : t.contains name = false) (d : Dialect) : t.lookup name d = none := by
  cases hl : t.lookup name d with
  | none => rfl
  | some e =>
    obtain ⟨hmem, hname, -⟩ := mem_of_lookup_eq_some hl
    rw [contains_iff.2 ⟨e, hmem, hname⟩] at h
    cases h

theorem missingWords_eq_nil_iff {vocabulary : List Word} :
    t.missingWords vocabulary = [] ↔
      ∀ w ∈ vocabulary, ∀ d, w.scope.admits d = true → (t.lookup w.name d).isSome = true := by
  unfold missingWords
  simp only [List.flatMap_eq_nil_iff, List.map_eq_nil_iff, List.filter_eq_nil_iff, Bool.and_eq_true, not_and,
    Option.isNone_iff_eq_none, Option.isSome_iff_ne_none]
  exact ⟨fun h w hw d => h w hw d (Dialect.mem_all d), fun h w hw d _ => h w hw d⟩

end Table

namespace CompilationUnit

variable {u : CompilationUnit} {name : String}

/-! ## The one reason to fail -/

/-- **A request fails exactly if the policy is to reject, no guard of the name is set and no entry has the name.** -/
theorem tryRequest_eq_error_iff {err : RequestError} :
    (u.tryRequest name).1 = .error err ↔
      u.policy = .reject ∧ u.isDefined name = false ∧ u.table.contains name = false ∧
        err = .unknownType name u.table.target.name u.dialect := by
  unfold tryRequest
  by_cases hdef : u.isDefined name = true
  · simp [hdef]
  · rw [if_neg hdef]
    cases hl : u.table.lookup name u.dialect with
    | some e =>
      obtain ⟨hmem, hname, -⟩ := Table.mem_of_lookup_eq_some hl
      have hcontains : u.table.contains name = true := Table.contains_iff.2 ⟨e, hmem, hname⟩
      simp [Table.resolve, hl, hcontains]
    | none =>
      by_cases hcontains : u.table.contains name = true
      · simp [Table.resolve, hl, hcontains]
      · cases hpolicy : u.policy with
        | ignore => simp [Table.resolve, hl, hcontains]
        | reject => simp [Table.resolve, hl, hcontains, hdef, eq_comm]

theorem tryRequest_snd_of_error {err : RequestError} (h : (u.tryRequest name).1 = .error err) :
    (u.tryRequest name).2 = u := by
  obtain ⟨-, -, hcontains, -⟩ := tryRequest_eq_error_iff.1 h
  exact request_eq_self_iff.2 (.inr (Table.lookup_eq_none_of_not_contains hcontains u.dialect))

theorem tryRequest_ok_of_contains (h : u.table.contains name = true) :
    ∃ outcome, (u.tryRequest name).1 = .ok outcome := by
  cases hanswer : (u.tryRequest name).1 with
  | ok outcome => exact ⟨outcome, rfl⟩
  | error err =>
    obtain ⟨-, -, hnot, -⟩ := tryRequest_eq_error_iff.1 hanswer
    rw [h] at hnot
    cases hnot

theorem checkRequests_eq_ok_iff {names : List String} :
    u.checkRequests names = .ok () ↔ ∀ n ∈ names, u.table.contains n = true := by
  unfold checkRequests
  split
  · rename_i hnil
    simpa [List.filter_eq_nil_iff] using hnil
  · rename_i hne
    refine iff_of_false nofun fun h => hne (List.filter_eq_nil_iff.2 fun n hn => ?_)
    simp [h n hn]

theorem checkRequests_lists {names : List String} (hmem : name ∈ names) (h : u.table.contains name = false) :
    ∃ missing, u.checkRequests names = .error (.unknownTypes missing u.table.target.name) ∧ name ∈ missing := by
  have hin : name ∈ names.filter fun n => !u.table.contains n := List.mem_filter.2 ⟨hmem, by simp [h]⟩
  unfold checkRequests
  split
  · rename_i hnil
    rw [hnil] at hin
    cases hin
  · exact ⟨_, rfl, hin⟩

/-! ## The answers of a run -/

/-- **What a unit answers on the way**, to each request that asks what came of it. -/
def answers (u : CompilationUnit) : List Operation → List (String × Except RequestError Outcome)
  | [] => []
  | .tryRequest name :: ops => (name, (u.tryRequest name).1) :: answers (u.perform (.tryRequest name)) ops
  | op :: ops => answers (u.perform op) ops

/-- An answer of a run is the answer of a unit that the run has reached. -/
theorem exists_run_of_mem_answers {ops : List Operation} {a : String × Except RequestError Outcome}
    (h : a ∈ u.answers ops) : ∃ before, a.2 = ((u.run before).tryRequest a.1).1 := by
  fun_induction answers u ops with
  | case1 => cases h
  | case2 u name ops ih =>
    rcases List.mem_cons.1 h with rfl | h
    · exact ⟨[], rfl⟩
    · obtain ⟨before, hbefore⟩ := ih h
      exact ⟨.tryRequest name :: before, hbefore⟩
  | case3 u op ops hop ih =>
    obtain ⟨before, hbefore⟩ := ih h
    exact ⟨op :: before, hbefore⟩

/-- **A name that passed the check is never refused.**  Take a strict unit after any operations, over a table after any
offers.  The check passes exactly if every name was offered, accepted or not, and from then on none of these names is
answered by an error, whatever else is asked in between.  A name that is answered by an error is listed by the check, at
whatever time the check is made, and the unit is left as it was. -/
theorem checked_names_never_refused (target : Target) (guards : GuardScheme) (offers : List Entry) (d : Dialect)
    (ops : List Operation) :
    let start := fresh (Table.built target guards offers) d .reject
    let u := start.run ops
    (∀ names, u.checkRequests names = .ok () ↔ ∀ n ∈ names, ∃ e ∈ offers, e.name = n) ∧
    (∀ names, u.checkRequests names = .ok () →
      ∀ later, ∀ a ∈ u.answers later, a.1 ∈ names → ∃ outcome, a.2 = .ok outcome) ∧
    ∀ name err, (u.tryRequest name).1 = .error err →
      (u.tryRequest name).2 = u ∧
      ∀ ops' names, name ∈ names → ∃ missing,
        (start.run ops').checkRequests names = .error (.unknownTypes missing target.name) ∧ name ∈ missing := by
  intro start u
  have htable : ∀ ops', (start.run ops').table = Table.built target guards offers := fun ops' =>
    (extends_run ops' start).table
  refine ⟨fun names => ?_, fun names hcheck later a ha hname => ?_, fun name err herror => ?_⟩
  · rw [checkRequests_eq_ok_iff, htable ops]
    simp only [Table.contains_built]
  · obtain ⟨before, hanswer⟩ := exists_run_of_mem_answers ha
    have hcontains : (u.run before).table.contains a.1 = true := by
      rw [(extends_run before u).table]
      exact checkRequests_eq_ok_iff.1 hcheck a.1 hname
    rw [hanswer]
    exact tryRequest_ok_of_contains hcontains
  · obtain ⟨-, -, hnot, -⟩ := tryRequest_eq_error_iff.1 herror
    refine ⟨tryRequest_snd_of_error herror, fun ops' names hmem => ?_⟩
    have htarget : (start.run ops').table.target = target := by
      rw [htable ops']
      exact (Table.extends_insertAll offers (.empty target guards)).target
    rw [← htarget]
    refine checkRequests_lists hmem ?_
    rw [htable ops', ← htable ops]
    exact hnot

/-- Two names that passed the check are never refused afterwards; a third, which was refused before, still is, and a check
that names it fails. -/
theorem checked_names_never_refused_split :
    let start := fresh (Table.built (.ofModel "host" .lp64) {} Table.splitOffers) .cxx .reject
    let u := start.run [.tryRequest "mode"]
    let later : List Operation := [.tryRequest "size", .markDefined "size", .tryRequest "thread", .tryRequest "size"]
    u.checkRequests ["thread", "size"] = .ok () ∧
    (∀ a ∈ u.answers later, a.1 ∈ ["thread", "size"] → ∃ outcome, a.2 = .ok outcome) ∧
    (u.answers later).map (·.1) = ["size", "thread", "size"] ∧
    (u.tryRequest "mode").1 = .error (.unknownType "mode" "host" .cxx) ∧
    ∃ missing, start.checkRequests ["size", "mode"] = .error (.unknownTypes missing "host") ∧ "mode" ∈ missing := by
  intro start u later
  have hspec := checked_names_never_refused (.ofModel "host" .lp64) {} Table.splitOffers .cxx [.tryRequest "mode"]
  have hcheck : u.checkRequests ["thread", "size"] = .ok () := by decide +kernel
  have herror : (u.tryRequest "mode").1 = .error (.unknownType "mode" "host" .cxx) := by decide +kernel
  exact ⟨hcheck, hspec.2.1 _ hcheck later, by decide +kernel, herror,
    (hspec.2.2 "mode" _ herror).2 [] ["size", "mode"] (by decide)⟩

/-! ## A vocabulary that is covered -/

theorem isDefined_of_settled (h : u.Settled name) (hl : (u.table.lookup name u.dialect).isSome = true) :
    u.isDefined name = true := by
  refine h.resolve_right fun hnone => ?_
  rw [hnone] at hl
  cases hl

theorem tryRequest_of_lookup {e : Entry} (h : u.table.lookup name u.dialect = some e) :
    (u.tryRequest name).1 = .ok .emitted ∨ (u.tryRequest name).1 = .ok .alreadyDefined := by
  unfold tryRequest
  by_cases hdef : u.isDefined name = true
  · rw [if_pos hdef]
    exact .inr rfl
  · rw [if_neg hdef, Table.resolve_of_lookup h]
    exact .inl rfl

/-- **In a fresh unit a request defines its name exactly if the table has an entry for it.** -/
theorem isDefined_request_fresh_iff {t : Table} {d : Dialect} {policy : UnknownPolicy} :
    ((fresh t d policy).request name).isDefined name = true ↔ (t.lookup name d).isSome = true := by
  have hext := (fresh t d policy).extends_request name
  constructor
  · intro hdef
    by_contra hnone
    have hself : (fresh t d policy).request name = fresh t d policy :=
      request_eq_self_iff.2 (.inr (Option.not_isSome_iff_eq_none.1 hnone))
    rw [hself] at hdef
    obtain ⟨g, -, hset⟩ := GuardSet.containsAny_iff.1 hdef
    cases hset
  · intro hl
    refine isDefined_of_settled (settled_request _ name) ?_
    rw [hext.table, hext.dialect]
    exact hl

/-- **A covered vocabulary is one whose requests succeed.**  A table leaves no word of a vocabulary out exactly if, in
every dialect of each word, a fresh unit that requests the word has it defined.  Then in every unit of such a dialect, after
any operations, a request for the word emits it or finds it defined, and it is defined ever after. -/
theorem missingWords_eq_nil_iff_requests_define (t : Table) (vocabulary : List Word) :
    (∀ policy, t.missingWords vocabulary = [] ↔
      ∀ w ∈ vocabulary, ∀ d, w.scope.admits d = true →
        ((fresh t d policy).request w.name).isDefined w.name = true) ∧
    (t.missingWords vocabulary = [] →
      ∀ w ∈ vocabulary, ∀ d, w.scope.admits d = true → ∀ policy ops,
        let u := (fresh t d policy).run ops
        ((u.tryRequest w.name).1 = .ok .emitted ∨ (u.tryRequest w.name).1 = .ok .alreadyDefined) ∧
        ∀ later, ((u.tryRequest w.name).2.run later).isDefined w.name = true) := by
  refine ⟨fun policy => ?_, fun hcovered w hw d hd policy ops => ?_⟩
  · rw [Table.missingWords_eq_nil_iff]
    simp only [isDefined_request_fresh_iff]
  · intro u
    have hext : (fresh t d policy).Extends u := extends_run ops _
    have hlookup : (u.table.lookup w.name u.dialect).isSome = true := by
      rw [hext.table, hext.dialect]
      exact Table.missingWords_eq_nil_iff.1 hcovered w hw d hd
    obtain ⟨e, he⟩ := Option.isSome_iff_exists.1 hlookup
    refine ⟨tryRequest_of_lookup he, fun later => ?_⟩
    have hlater : u.Extends ((u.tryRequest w.name).2.run later) :=
      (u.extends_request w.name).trans (extends_run later _)
    refine isDefined_of_settled ((u.settled_request w.name).of_extends (extends_run later _)) ?_
    rw [hlater.table, hlater.dialect]
    exact hlookup

/-- A name split between the dialects, asked for in C++ after another producer has set its guard, and one for C alone. -/
theorem missingWords_eq_nil_iff_requests_define_split :
    let t := Table.built (.ofModel "host" .lp64) {} Table.splitOffers
    let vocabulary : List Word := [{ name := "thread" }, { name := "size", scope := .c }]
    let u := (fresh t .cxx .reject).run [.preset "__CLANG_THREAD_DEFINED", .tryRequest "mode"]
    t.missingWords vocabulary = [] ∧
    ((u.tryRequest "thread").1 = .ok .emitted ∨ (u.tryRequest "thread").1 = .ok .alreadyDefined) ∧
    u.emitted = [] ∧
    ((u.tryRequest "thread").2.run [.markDefined "size"]).isDefined "thread" = true := by
  intro t vocabulary u
  have hcovered : t.missingWords vocabulary = [] := by decide +kernel
  have hspec := (missingWords_eq_nil_iff_requests_define t vocabulary).2 hcovered { name := "thread" } (by decide)
    .cxx rfl .reject [.preset "__CLANG_THREAD_DEFINED", .tryRequest "mode"]
  exact ⟨hcovered, hspec.1, by decide +kernel, hspec.2 [.markDefined "size"]⟩

end CompilationUnit
end CAbi
