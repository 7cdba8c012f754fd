import Mathlib.Data.List.Forall2
import CAbi.Proofs.Acceptance
import CAbi.TableFile.Build
/-!
# FileToTable — what becomes of the sections of a file

A file goes wrong in two ways.  A spelling that is refused ends everything, and the first one is reported alone; every
other defect is collected, and all are reported together.  The two meet in every section: a section that sets one body
has its spellings read, one after the other, whereas a section that sets none or several is reported without a look at
them.

What a section says is put down here without reading it: how many bodies it sets (`bodyCount`), which spellings stand in
it, which of them is refused first (`Misspelled`), and which entry it describes (`Describes`).  Every section describes
an entry, or is misspelled, or does not set one body, and reading it tells which (`TypeSection.entry_cases`).  Along the
list of the sections the same is then said of the file (`entries_cases`).
-/
namespace CAbi
namespace TableFile

/-! ## What a section says -/

/-- **The first spelling that is refused, with its error**: those before it are read. -/
def FirstRefused (spellings : List String) (error : SpellingError) : Prop :=
  ∃ before spelling after, spellings = before ++ spelling :: after ∧
    (∀ s ∈ before, ∃ type, CType.ofSpelling s = .ok type) ∧ CType.ofSpelling spelling = .error error

/-- **The field that is written.** -/
structure SpelledField.Reads (written : SpelledField) (f : Field) : Prop where
  name : f.name = written.name
  type : CType.ofSpelling written.spelling = .ok f.type
  length : f.length = written.length

/-- **The record that is written**, with its fields in order. -/
structure SpelledRecord.Reads (written : SpelledRecord) (r : Record) : Prop where
  kind : r.kind = written.kind
  tag : r.tag = written.tag
  tagOnly : r.tagOnly = written.tagOnly
  fields : List.Forall₂ SpelledField.Reads written.fields r.fields

namespace TypeSection

/-- How many of the three bodies the section sets. -/
def bodyCount (s : TypeSection) : Nat := s.typedef.isSome.toNat + s.record.isSome.toNat + s.views.isSome.toNat

/-- The spellings of a section, in the order in which they are written. -/
def spellings (s : TypeSection) : List String :=
  s.typedef.toList ++ (s.record.toList.flatMap fun r => r.fields.map (·.spelling)) ++
    s.views.toList.flatMap fun views => views.map (·.spelling)

/-- **A body the section sets.** -/
inductive Sets (s : TypeSection) : Body → Prop
  | synonym {spelling : String} {type : CType} (written : s.typedef = some spelling)
      (reads : CType.ofSpelling spelling = .ok type) : Sets s (.synonym type)
  | record {spelled : SpelledRecord} {r : Record} (written : s.record = some spelled) (reads : spelled.Reads r) :
      Sets s (.record r)
  | opaqueHandle {spelled : List SpelledField} {views : List Field} (written : s.views = some spelled)
      (reads : List.Forall₂ SpelledField.Reads spelled views) : Sets s (.opaqueHandle views)

/-- **The entry a section describes**: it sets the entry's body and no other. -/
structure Describes (s : TypeSection) (e : Entry) : Prop where
  one : s.bodyCount = 1
  name : e.name = s.name
  scope : e.scope = s.scope
  body : s.Sets e.body
  foreignAliases : e.foreignAliases = s.foreignAliases
  extraAliases : e.extraAliases = s.aliases

/-- **A section with one body and a spelling that is refused**; the error is that of the first. -/
structure Misspelled (s : TypeSection) (error : SpellingError) : Prop where
  one : s.bodyCount = 1
  first : FirstRefused s.spellings error

/-- **Nothing in the section is refused**: its spellings are read, or not looked at as it does not set one body. -/
def Legible (s : TypeSection) : Prop :=
  s.bodyCount = 1 → ∀ spelling ∈ s.spellings, ∃ type, CType.ofSpelling spelling = .ok type

/-- **The defect of a section that does not set one body.** -/
def shapeDefect (s : TypeSection) : Defect := if s.bodyCount = 0 then .noBody s.name else .severalBodies s.name

theorem shapeDefect_code (s : TypeSection) :
    s.shapeDefect.code = "table.body" ∧ s.shapeDefect.entry? = some s.name := by
  unfold shapeDefect
  split
  · exact ⟨rfl, rfl⟩
  · exact ⟨rfl, rfl⟩

end TypeSection

/-! ## Fields in order -/

theorem firstRefused_cons_of_error {spelling : String} {spellings : List String} {error : SpellingError}
    (h : CType.ofSpelling spelling = .error error) : FirstRefused (spelling :: spellings) error :=
  ⟨[], spelling, spellings, rfl, fun _ hs => absurd hs List.not_mem_nil, h⟩

theorem firstRefused_cons_of_ok {spelling : String} {spellings : List String} {type : CType} {error : SpellingError}
    (h : CType.ofSpelling spelling = .ok type) (hrest : FirstRefused spellings error) :
    FirstRefused (spelling :: spellings) error := by
  obtain ⟨before, refused, after, rfl, hbefore, herror⟩ := hrest
  exact ⟨spelling :: before, refused, after, rfl, List.forall_mem_cons.2 ⟨⟨type, h⟩, hbefore⟩, herror⟩

theorem parseFields_cons (f : SpelledField) (fs : List SpelledField) :
    parseFields (f :: fs) = match CType.ofSpelling f.spelling with
      | .error error => .error error
      | .ok type => (parseFields fs).map ({ name := f.name, type := type, length := f.length } :: ·) := by
  unfold parseFields
  rw [List.mapM_cons]
  unfold SpelledField.parse
  cases CType.ofSpelling f.spelling with
  | error error => rfl
  | ok type => cases fs.mapM SpelledField.parse <;> rfl

theorem parseFields_cases : ∀ fs : List SpelledField,
    (∃ gs, parseFields fs = .ok gs ∧ List.Forall₂ SpelledField.Reads fs gs) ∨
    ∃ error, parseFields fs = .error error ∧ FirstRefused (fs.map (·.spelling)) error
  | [] => .inl ⟨[], rfl, .nil⟩
  | f :: fs => by
    rw [parseFields_cons]
    cases htype : CType.ofSpelling f.spelling with
    | error error => exact .inr ⟨error, rfl, firstRefused_cons_of_error htype⟩
    | ok type =>
      rcases parseFields_cases fs with ⟨gs, hgs, hreads⟩ | ⟨error, herror, hfirst⟩
      · exact .inl ⟨_ :: gs, by rw [hgs]; rfl, .cons ⟨rfl, htype, rfl⟩ hreads⟩
      · exact .inr ⟨error, by rw [herror]; rfl, firstRefused_cons_of_ok htype hfirst⟩

theorem readable_of_reads {fs : List SpelledField} {gs : List Field} (h : List.Forall₂ SpelledField.Reads fs gs) :
    ∀ spelling ∈ fs.map (·.spelling), ∃ type, CType.ofSpelling spelling = .ok type := by
  induction h with
  | nil => exact fun _ hs => absurd hs List.not_mem_nil
  | cons hread _ ih => exact List.forall_mem_cons.2 ⟨⟨_, hread.type⟩, ih⟩

/-! ## One section -/

namespace TypeSection

/-- **What becomes of a section's body**: it is read, or a spelling is refused, or the section does not set one. -/
theorem body_cases (s : TypeSection) :
    (∃ b, s.body = .ok b ∧ s.bodyCount = 1 ∧ s.Sets b) ∨
    (∃ error, s.body = .error (.spelling error) ∧ s.Misspelled error) ∨
    s.body = .error (.shape s.shapeDefect) ∧ s.bodyCount ≠ 1 := by
  obtain ⟨name, scope, typedef, record, views, foreignAliases, aliases⟩ := s
  match typedef, record, views with
  | some spelling, none, none =>
    simp only [body]
    cases htype : CType.ofSpelling spelling with
    | ok type => exact .inl ⟨.synonym type, rfl, rfl, .synonym rfl htype⟩
    | error error => exact .inr (.inl ⟨error, rfl, rfl, firstRefused_cons_of_error htype⟩)
  | none, some r, none =>
    simp only [body, SpelledRecord.parse]
    rcases parseFields_cases r.fields with ⟨gs, hgs, hreads⟩ | ⟨error, herror, hfirst⟩
    · rw [hgs]
      exact .inl ⟨_, rfl, rfl, .record rfl ⟨rfl, rfl, rfl, hreads⟩⟩
    · rw [herror]
      exact .inr (.inl ⟨error, rfl, rfl, by simpa [spellings] using hfirst⟩)
  | none, none, some views =>
    simp only [body]
    rcases parseFields_cases views with ⟨gs, hgs, hreads⟩ | ⟨error, herror, hfirst⟩
    · rw [hgs]
      exact .inl ⟨_, rfl, rfl, .opaqueHandle rfl hreads⟩
    · rw [herror]
      exact .inr (.inl ⟨error, rfl, rfl, by simpa [spellings] using hfirst⟩)
  -- the other five ways set none of the bodies or several, and are told apart by the count alone
  | none, none, none => exact .inr (.inr ⟨rfl, by simp [bodyCount]⟩)
  | some _, some _, none => exact .inr (.inr ⟨rfl, by simp [bodyCount]⟩)
  | some _, none, some _ => exact .inr (.inr ⟨rfl, by simp [bodyCount]⟩)
  | none, some _, some _ => exact .inr (.inr ⟨rfl, by simp [bodyCount]⟩)
  | some _, some _, some _ => exact .inr (.inr ⟨rfl, by simp [bodyCount]⟩)

theorem entry_cases (s : TypeSection) :
    (∃ e, s.entry = .ok e ∧ s.Describes e) ∨
    (∃ error, s.entry = .error (.spelling error) ∧ s.Misspelled error) ∨
    s.entry = .error (.shape s.shapeDefect) ∧ s.bodyCount ≠ 1 := by
  unfold entry
  rcases s.body_cases with ⟨b, hb, hone, hsets⟩ | ⟨error, herror, hmis⟩ | ⟨hshape, hcount⟩
  · rw [hb]
    exact .inl ⟨_, rfl, hone, rfl, rfl, hsets, rfl, rfl⟩
  · rw [herror]
    exact .inr (.inl ⟨error, rfl, hmis⟩)
  · rw [hshape]
    exact .inr (.inr ⟨rfl, hcount⟩)

/-- The one body of a section holds all its spellings. -/
theorem Sets.readable {s : TypeSection} {b : Body} (h : s.Sets b) (hone : s.bodyCount = 1) :
    ∀ spelling ∈ s.spellings, ∃ type, CType.ofSpelling spelling = .ok type := by
  cases h with
  | synonym written reads =>
    have hothers : s.record = none ∧ s.views = none := by
      cases hrecord : s.record <;> cases hviews : s.views <;> simp [bodyCount, written, hrecord, hviews] at hone ⊢
    simp only [spellings, written, hothers]
    exact List.forall_mem_singleton.2 ⟨_, reads⟩
  | record written reads =>
    have hothers : s.typedef = none ∧ s.views = none := by
      cases htypedef : s.typedef <;> cases hviews : s.views <;> simp [bodyCount, written, htypedef, hviews] at hone ⊢
    simpa [spellings, written, hothers] using readable_of_reads reads.fields
  | opaqueHandle written reads =>
    have hothers : s.typedef = none ∧ s.record = none := by
      cases htypedef : s.typedef <;> cases hrecord : s.record <;> simp [bodyCount, written, htypedef, hrecord] at hone ⊢
    simpa [spellings, written, hothers] using readable_of_reads reads

theorem Describes.legible {s : TypeSection} {e : Entry} (h : s.Describes e) : s.Legible := h.body.readable

theorem Misspelled.not_legible {s : TypeSection} {error : SpellingError} (h : s.Misspelled error) : ¬s.Legible := by
  intro hlegible
  obtain ⟨before, refused, after, hspellings, -, hrefused⟩ := h.first
  have hmem : refused ∈ s.spellings := by rw [hspellings]; exact List.mem_append_right _ List.mem_cons_self
  obtain ⟨type, hread⟩ := hlegible h.one refused hmem
  rw [hrefused] at hread
  cases hread

end TypeSection

/-! ## All sections -/

/-- **The first section with one body and a spelling that is refused**, and the error of the first such spelling. -/
def FirstMisspelled (ss : List TypeSection) (s : TypeSection) (error : SpellingError) : Prop :=
  ∃ before after, ss = before ++ s :: after ∧ (∀ s' ∈ before, s'.Legible) ∧ s.Misspelled error

theorem FirstMisspelled.cons {ss : List TypeSection} {s s' : TypeSection} {error : SpellingError} (hs' : s'.Legible) :
    FirstMisspelled ss s error → FirstMisspelled (s' :: ss) s error
  | ⟨before, after, hss, hbefore, hmis⟩ =>
    ⟨s' :: before, after, by rw [hss]; rfl, List.forall_mem_cons.2 ⟨hs', hbefore⟩, hmis⟩

theorem entries_cons_ok {s : TypeSection} {ss : List TypeSection} {e : Entry} (h : s.entry = .ok e) :
    entries (s :: ss) = (entries ss).map fun (es, ds) => (e :: es, ds) := by
  simp only [entries, h]

theorem entries_cons_shape {s : TypeSection} {ss : List TypeSection} {defect : Defect}
    (h : s.entry = .error (.shape defect)) :
    entries (s :: ss) = (entries ss).map fun (es, ds) => (es, defect :: ds) := by
  simp only [entries, h]

/-- **What becomes of the sections**: the first spelling that is refused ends it, whatever comes before and after; if
there is none, the sections with one body are entries, and the others defects. -/
theorem entries_cases : ∀ ss : List TypeSection,
    (∃ s error, FirstMisspelled ss s error ∧ entries ss = .error (.spelling s.name error)) ∨
    (∀ s ∈ ss, s.Legible) ∧ ∃ es, List.Forall₂ TypeSection.Describes (ss.filter (·.bodyCount == 1)) es ∧
      entries ss = .ok (es, (ss.filter (·.bodyCount != 1)).map TypeSection.shapeDefect)
  | [] => .inr ⟨fun _ hs => absurd hs List.not_mem_nil, [], .nil, rfl⟩
  | s :: ss => by
    rcases s.entry_cases with ⟨e, he, hdescribes⟩ | ⟨error, herror, hmis⟩ | ⟨hshape, hcount⟩
    · rw [entries_cons_ok he]
      rcases entries_cases ss with ⟨s', error, hfirst, hrest⟩ | ⟨hlegible, es, hes, hrest⟩
      · rw [hrest]
        exact .inl ⟨s', error, hfirst.cons hdescribes.legible, rfl⟩
      · rw [hrest, List.filter_cons_of_pos (by simpa using hdescribes.one),
          List.filter_cons_of_neg (by simpa using hdescribes.one)]
        exact .inr ⟨List.forall_mem_cons.2 ⟨hdescribes.legible, hlegible⟩, e :: es, .cons hdescribes hes, rfl⟩
    · refine .inl ⟨s, error, ⟨[], ss, rfl, fun _ hs => absurd hs List.not_mem_nil, hmis⟩, ?_⟩
      simp only [entries, herror]
    · -- nothing in a section that does not set one body is looked at, so nothing is refused
      have hs : s.Legible := fun hone => absurd hone hcount
      rw [entries_cons_shape hshape]
      rcases entries_cases ss with ⟨s', error, hfirst, hrest⟩ | ⟨hlegible, es, hes, hrest⟩
      · rw [hrest]
        exact .inl ⟨s', error, hfirst.cons hs, rfl⟩
      · rw [hrest, List.filter_cons_of_neg (by simpa using hcount), List.filter_cons_of_pos (by simpa using hcount)]
        exact .inr ⟨List.forall_mem_cons.2 ⟨hs, hlegible⟩, es, hes, rfl⟩

/-! ## The file -/

/-- The defects that were reported; none with a table. -/
def reported : Except (List Defect) Table → List Defect
  | .ok _ => []
  | .error found => found

variable {f : TableFile} {es : List Entry}

theorem build_of_ok {t : Table} (h : entries f.types = .ok (es, []))
    (ht : Table.ofEntries f.target f.guards es = .ok t) : f.build = .ok t := by
  simp only [build, h, ht]

theorem build_of_defects {ds : List Defect} (h : entries f.types = .ok (es, ds))
    (hbad : ds ≠ [] ∨ ∃ found, Table.ofEntries f.target f.guards es = .error found) :
    f.build = .error (.defects (ds ++ reported (Table.ofEntries f.target f.guards es))) := by
  simp only [build, h]
  cases ht : Table.ofEntries f.target f.guards es with
  | error found => rfl
  | ok t =>
    cases ds with
    | cons d ds => simp only [reported, List.append_nil]
    | nil =>
      rcases hbad with hne | ⟨found, hfound⟩
      · exact absurd rfl hne
      · rw [ht] at hfound
        cases hfound

/-- **A file becomes a table, or everything that is wrong with it is reported.**  A spelling that is refused in a
section with one body is reported alone, the first of the first such section, whatever else is wrong.  Otherwise the
sections with one body are entries.  If other sections are left or the checks reject the entries, the report is the
other sections, in order, and then what the checks found.  If not, there is a table of the file's target and guards,
with one entry for each section, in order. -/
theorem build_reports_everything (f : TableFile) :
    ((∃ s ∈ f.types, ¬s.Legible) →
      ∃ s error, FirstMisspelled f.types s error ∧ f.build = .error (.spelling s.name error)) ∧
    ((∀ s ∈ f.types, s.Legible) →
      ∃ es, List.Forall₂ TypeSection.Describes (f.types.filter (·.bodyCount == 1)) es ∧
        ((∃ s ∈ f.types, s.bodyCount ≠ 1) ∨ (∃ found, Table.ofEntries f.target f.guards es = .error found) →
          f.build = .error (.defects ((f.types.filter (·.bodyCount != 1)).map TypeSection.shapeDefect ++
            reported (Table.ofEntries f.target f.guards es)))) ∧
        ((∀ s ∈ f.types, s.bodyCount = 1) → (∀ found, Table.ofEntries f.target f.guards es ≠ .error found) →
          ∃ t, f.build = .ok t ∧ t.target = f.target ∧ t.guards = f.guards ∧
            List.Forall₂ TypeSection.Describes f.types t.entries)) ∧
    ∀ s : TypeSection, s.shapeDefect.code = "table.body" ∧ s.shapeDefect.entry? = some s.name := by
  refine ⟨?_, fun hlegible => ?_, fun s => s.shapeDefect_code⟩
  · rintro ⟨s, hs, hnot⟩
    rcases entries_cases f.types with ⟨s', error, hfirst, herror⟩ | ⟨hlegible, -⟩
    · exact ⟨s', error, hfirst, by simp only [build, herror]⟩
    · exact absurd (hlegible s hs) hnot
  rcases entries_cases f.types with ⟨s, error, ⟨before, after, htypes, -, hmis⟩, -⟩ | ⟨-, es, hes, hentries⟩
  · have hs : s ∈ f.types := by rw [htypes]; exact List.mem_append_right _ List.mem_cons_self
    exact absurd (hlegible s hs) hmis.not_legible
  refine ⟨es, hes, fun hbad => build_of_defects hentries (hbad.imp_left ?_), fun hone hpass => ?_⟩
  · rintro ⟨s, hs, hcount⟩ hnil
    have hmem : s ∈ f.types.filter (·.bodyCount != 1) := List.mem_filter.2 ⟨hs, by simpa using hcount⟩
    rw [List.map_eq_nil_iff.1 hnil] at hmem
    cases hmem
  · have hkept : f.types.filter (·.bodyCount == 1) = f.types :=
      List.filter_eq_self.2 fun s hs => by simpa using hone s hs
    have hnone : f.types.filter (·.bodyCount != 1) = [] :=
      List.filter_eq_nil_iff.2 fun s hs => by simpa using hone s hs
    rw [hnone] at hentries
    rw [hkept] at hes
    cases ht : Table.ofEntries f.target f.guards es with
    | error found => exact absurd ht (hpass found)
    | ok t =>
      obtain rfl := Table.eq_of_ofEntries ht
      exact ⟨_, build_of_ok hentries ht, rfl, rfl, hes⟩

/-- A section of a name that sets at most a synonym and views. -/
def plainSection (name : String) (typedef : Option String) (views : Option (List SpelledField)) : TypeSection :=
  { name, scope := .any, typedef, record := none, views, foreignAliases := true, aliases := [] }

/-- A section without a body, one with two of which one cannot be read, and a name that is defined twice. -/
def doubleSections : List TypeSection :=
  [plainSection "lost" none none, plainSection "both" (some "int") (some [⟨"bits", "$", some (.count 2)⟩]),
    plainSection "size" (some "unsigned long") none, plainSection "size" (some "int") none]

/-- All defects are reported; but a refused spelling at the end of the file leaves none of them. -/
theorem build_reports_everything_double :
    let f : TableFile := ⟨.ofModel "" .lp64, {}, doubleSections⟩
    let word (name spelling : String) : SpelledField := ⟨name, spelling, some (.count 1)⟩
    let last := plainSection "last" none (some [word "low" "int", word "high" "unsigned void"])
    let longer : TableFile := { f with types := doubleSections ++ [last] }
    (∃ es, List.Forall₂ TypeSection.Describes (doubleSections.drop 2) es ∧
      f.build = .error (.defects
        ([.noBody "lost", .severalBodies "both"] ++ reported (Table.ofEntries f.target f.guards es)))) ∧
    f.build = .error (.defects [.noBody "lost", .severalBodies "both", .duplicate "size" .any .any]) ∧
    ∃ s error, FirstMisspelled longer.types s error ∧ longer.build = .error (.spelling s.name error) := by
  intro f word last longer
  have hint : ∃ type, CType.ofSpelling "int" = .ok type := ⟨.scalar (.plain .int), by decide +kernel⟩
  have hlong : ∃ type, CType.ofSpelling "unsigned long" = .ok type := ⟨.scalar (.unsigned .long), by decide +kernel⟩
  have hlegible : ∀ s ∈ f.types, s.Legible := by
    simp [f, doubleSections, plainSection, TypeSection.Legible, TypeSection.bodyCount, TypeSection.spellings, hint,
      hlong]
  have hvoid : CType.ofSpelling "unsigned void" =
      .error (.unexpected .integerAfterSign (some (.keyword .void)) 9 "unsigned void") := by decide +kernel
  have hnot : ¬last.Legible := fun h => by
    obtain ⟨type, htype⟩ := h rfl "unsigned void" (by decide)
    rw [hvoid] at htype
    cases htype
  refine ⟨?_, by decide +kernel, (build_reports_everything longer).1 ⟨last, by simp [longer], hnot⟩⟩
  obtain ⟨es, hes, hdefects, -⟩ := (build_reports_everything f).2.1 hlegible
  exact ⟨es, hes, hdefects (.inl ⟨plainSection "lost" none none, List.mem_cons_self, by decide⟩)⟩

end TableFile
end CAbi
