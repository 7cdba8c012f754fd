import Mathlib.Data.List.DropRight
import CAbi.Proofs.Acceptance
import CAbi.Proofs.DeclarationLine
import CAbi.Proofs.SpellingRoundTrip
/-!
# DeclaredNames — whether a declaration introduces the name it is for

A reference is written as the bare name, and what comes before it in a unit has to make a type of that name.  Which name
a declaration introduces is read off its text (`typedefName?`).  A `typedef` introduces the name of its entry, whatever
type stands before it (`Body.specifier`); a record that is declared by its tag alone introduces the tag and nothing else.

The checks ask of a reference that it leads to an entry, not to one that declares a type name.  In a checked table a
reference is introduced exactly if it does not lead to a record declared by its tag alone.
-/
namespace CAbi

/-- The word at the end of a text, before its last character. -/
def lastWord (cs : List Char) : List Char := cs.dropLast.rtakeWhile Identifier.isRest

/-- **The type name that a declaration introduces**: of a `typedef`, the word before the semicolon, as nothing here puts
a bound or a parameter list behind the name. -/
def typedefName? (text : String) : Option String :=
  if "typedef ".toList <+: text.toList ∧ text.toList.getLast? = some ';' ∧
      Identifier.valid (lastWord text.toList) = true then
    some (String.ofList (lastWord text.toList))
  else none

/-- The body is declared by its tag alone. -/
def Body.isTagOnly : Body → Bool
  | .record r => r.tagOnly
  | _ => false

/-! ## Reading a declaration -/

theorem valid_of_typedefName? {text name : String} (h : typedefName? text = some name) :
    Identifier.valid name.toList = true := by
  unfold typedefName? at h
  split at h
  · rename_i hread
    cases h
    rw [String.toList_ofList]
    exact hread.2.2
  · cases h

theorem rtakeWhile_word {word before : List Char} {c : Char} (hword : ∀ x ∈ word, Identifier.isRest x = true)
    (hc : Identifier.isRest c = false) : (before ++ c :: word).rtakeWhile Identifier.isRest = word := by
  unfold List.rtakeWhile
  rw [List.reverse_append, List.reverse_cons, List.append_assoc, List.singleton_append,
    List.takeWhile_append_of_pos (fun x hx => hword x (List.mem_reverse.1 hx)),
    List.takeWhile_cons_of_neg (Bool.eq_false_iff.1 hc), List.append_nil, List.reverse_reverse]

/-- **A `typedef` that ends in a name introduces it, if it is an identifier.** -/
theorem typedefName?_eq_some_iff {text name : String} {before : List Char} {c : Char}
    (htext : text.toList = "typedef ".toList ++ before ++ c :: name.toList ++ [';'])
    (hc : Identifier.isRest c = false) :
    typedefName? text = some name ↔ Identifier.valid name.toList = true := by
  refine ⟨valid_of_typedefName?, fun hname => ?_⟩
  have hword : lastWord text.toList = name.toList := by
    unfold lastWord
    rw [htext, List.dropLast_concat]
    exact rtakeWhile_word (Identifier.all_isRest_of_valid hname) hc
  have hstarts : "typedef ".toList <+: text.toList := by
    rw [htext, List.append_assoc, List.append_assoc]
    exact List.prefix_append _ _
  have hlast : text.toList.getLast? = some ';' := by
    rw [htext, List.getLast?_concat]
  unfold typedefName?
  rw [hword, if_pos ⟨hstarts, hlast, hname⟩, String.ofList_toList]

/-! ## What declarations look like

A declaration is a type, as C writes it, and around it `typedef` and the name; or it is the type alone. -/

/-- **A text up to the name that follows it**: a star touches the name, anything else is set off by a blank. -/
def beforeName (text : String) : String := text ++ (if endsInStar text then "" else " ")

theorem beforeName_of_not_endsInStar {text : String} (h : endsInStar text = false) : beforeName text = text ++ " " := by
  rw [beforeName, h]
  rfl

theorem beforeName_ends (text : String) :
    ∃ before c, (beforeName text).toList = before ++ [c] ∧ Identifier.isRest c = false := by
  by_cases h : endsInStar text = true
  · -- the star itself stands before the name
    obtain ⟨init, hinit⟩ : ∃ init, text.toList = init ++ ['*'] := List.getLast?_eq_some_iff.1 (beq_iff_eq.1 h)
    exact ⟨init, '*', by simp [beforeName, h, hinit], by decide⟩
  · exact ⟨text.toList, ' ', by simp [beforeName, h], by decide⟩

theorem Field.declarator_eq (f : Field) : f.declarator = beforeName f.type.spelling ++ f.name ++ f.bound := rfl

/-- The tag of a record, in front of its members. -/
def Record.tagText (r : Record) : String :=
  match r.tag with
  | some tag => tag ++ " "
  | none => ""

/-- **The type that a declaration is about**: all of it but `typedef`, the name and the semicolon. -/
def Body.specifier : Body → String
  | .synonym type => type.spelling
  | .record r => r.kind.keyword ++ " " ++ r.tagText ++ membersText r.fields
  | .opaqueHandle views => "struct \x7b union " ++ membersText views ++ " __u; \x7d"

theorem endsInStar_membersText (text : String) (fs : List Field) : endsInStar (text ++ membersText fs) = false := by
  have hne : (membersText fs).toList ≠ [] := by simp [membersText]
  rw [CType.endsInStar_append _ hne]
  exact CType.endsInStar_append _ (by decide)

namespace Body

theorem specifier_synonym (type : CType) : specifier (.synonym type) = type.spelling := rfl

theorem specifier_record (r : Record) :
    specifier (.record r) = r.kind.keyword ++ " " ++ r.tagText ++ membersText r.fields := rfl

theorem specifier_opaqueHandle (views : List Field) :
    specifier (.opaqueHandle views) = "struct \x7b union " ++ membersText views ++ " __u; \x7d" := rfl

theorem declaration_of_isTagOnly_eq_false {b : Body} (h : b.isTagOnly = false) (name : String) :
    b.declaration name = "typedef " ++ beforeName b.specifier ++ name ++ ";" := by
  cases b with
  | synonym type =>
    rw [declaration_synonym, Field.declarator_eq, Field.bound, specifier_synonym, String.append_empty, String.append_assoc,
      String.append_assoc, String.append_assoc, String.append_assoc]
  | opaqueHandle views =>
    have hstar : endsInStar (specifier (.opaqueHandle views)) = false := CType.endsInStar_append _ (by decide)
    rw [declaration_opaqueHandle, beforeName_of_not_endsInStar hstar, specifier_opaqueHandle, ← String.toList_inj]
    simp
  | record r =>
    have hflag : r.tagOnly = false := h
    rw [specifier_record, beforeName_of_not_endsInStar (endsInStar_membersText _ _), ← String.toList_inj]
    show (r.declaration name).toList = _
    cases htag : r.tag <;> simp [Record.declaration, Record.tagText, hflag, htag]

theorem declaration_of_isTagOnly {b : Body} (h : b.isTagOnly = true) (htag : b.tag? ≠ none) (name : String) :
    b.declaration name = b.specifier ++ ";" := by
  cases b with
  | synonym type => cases h
  | opaqueHandle views => cases h
  | record r =>
    have hflag : r.tagOnly = true := h
    obtain ⟨tag, htag⟩ := Option.ne_none_iff_exists'.1 htag
    replace htag : r.tag = some tag := htag
    rw [specifier_record, ← String.toList_inj]
    show (r.declaration name).toList = _
    simp [Record.declaration, Record.tagText, hflag, htag]

/-- **A declaration by tag alone introduces no type name.** -/
theorem typedefName?_declaration_of_isTagOnly {b : Body} (honly : b.isTagOnly = true) (htag : b.tag? ≠ none)
    (name : String) : typedefName? (b.declaration name) = none := by
  refine if_neg fun hread => ?_
  have hstarts := hread.1
  rw [declaration_of_isTagOnly honly htag] at hstarts
  cases b with
  | synonym type => cases honly
  | opaqueHandle views => cases honly
  | record r =>
    rw [specifier_record] at hstarts
    cases hkind : r.kind with
    | struct => simp [hkind, AggregateKind.keyword] at hstarts
    | union => simp [hkind, AggregateKind.keyword] at hstarts

end Body

/-- **A declaration introduces its name exactly if that is an identifier and not only a tag is declared.** -/
theorem Body.typedefName?_declaration_iff {b : Body} (htag : b.isTagOnly = true → b.tag? ≠ none) (name : String) :
    typedefName? (b.declaration name) = some name ↔ Identifier.valid name.toList = true ∧ b.isTagOnly = false := by
  cases honly : b.isTagOnly with
  | true =>
    rw [Body.typedefName?_declaration_of_isTagOnly honly (htag honly)]
    simp
  | false =>
    obtain ⟨before, c, hbefore, hc⟩ := beforeName_ends b.specifier
    have htext : (b.declaration name).toList = "typedef ".toList ++ before ++ c :: name.toList ++ [';'] := by
      rw [Body.declaration_of_isTagOnly_eq_false honly]
      simp [hbefore]
    rw [typedefName?_eq_some_iff htext hc]
    simp

/-! ## Styles change types only -/

theorem Style.isTagOnly_apply (style : Style) (t : Target) (b : Body) : (style.apply t b).isTagOnly = b.isTagOnly := by
  cases style <;> cases b <;> rfl

theorem Style.tag?_apply (style : Style) (t : Target) (b : Body) : (style.apply t b).tag? = b.tag? := by
  cases style <;> cases b <;> rfl

theorem Body.WellShaped.tag_ne_none {b : Body} (h : b.WellShaped) (honly : b.isTagOnly = true) : b.tag? ≠ none := by
  cases b with
  | synonym type => cases honly
  | opaqueHandle views => cases honly
  | record r => exact h.2.1 honly

namespace Table

/-- **In a checked table a reference leads to an entry that introduces the name, unless it is declared by its tag
alone.**  Whatever the style, the declaration of the entry found for a reference makes it a type name exactly if the
reference is an identifier and the entry is not a record declared by its tag alone. -/
theorem reference_introduced_iff {target : Target} {guards : GuardScheme} {entries : List Entry} {t : Table}
    (h : ofEntries target guards entries = .ok t) {d : Dialect} {e : Entry} (he : e ∈ t.entries)
    (hd : e.scope.admits d = true) {r : String} (hr : r ∈ e.body.references) :
    ∃ e', t.lookup r d = some e' ∧ ∀ style : Style,
      typedefName? ((style.apply t.target e'.body).declaration r) = some r ↔
        Identifier.valid r.toList = true ∧ e'.body.isTagOnly = false := by
  have hw := wellFormed_of_ofEntries h
  obtain ⟨e', hmem, hname, hd'⟩ := hw.resolved d e he hd r hr
  refine ⟨e', (lookup_eq_some_iff hw.unambiguous).2 ⟨hmem, hname, hd'⟩, fun style => ?_⟩
  have htag : (style.apply t.target e'.body).isTagOnly = true → (style.apply t.target e'.body).tag? ≠ none := by
    rw [style.isTagOnly_apply, style.tag?_apply]
    exact (hw.bodies e' hmem).tag_ne_none
  rw [Body.typedefName?_declaration_iff htag, style.isTagOnly_apply]

def timeEntry : Entry := { name := "time_t", body := .synonym (.scalar (.plain .long)) }

/-- A struct that is declared by its tag alone and refers to another name. -/
def timespecEntry : Entry :=
  { name := "struct_timespec"
    body := .record
      { tag := some "timespec", tagOnly := true
        fields := [{ name := "tv_sec", type := ⟨.named "time_t", false, []⟩ }] } }

/-- A name for that struct. -/
def deadlineEntry : Entry := { name := "deadline_t", body := .synonym ⟨.named "struct_timespec", false, []⟩ }

def deadlines : Table := ⟨.ofModel "" .lp64, {}, [timeEntry, timespecEntry, deadlineEntry]⟩

theorem ofEntries_deadlines :
    ofEntries (.ofModel "" .lp64) {} [timeEntry, timespecEntry, deadlineEntry] = .ok deadlines := by decide +kernel

theorem reference_introduced_iff_time :
    ofEntries (.ofModel "" .lp64) {} [timeEntry, timespecEntry, deadlineEntry] = .ok deadlines ∧
    timespecEntry ∈ deadlines.entries ∧ "time_t" ∈ timespecEntry.body.references ∧
    deadlines.lookup "time_t" .c = some timeEntry ∧
    ∀ style : Style,
      typedefName? ((style.apply deadlines.target timeEntry.body).declaration "time_t") = some "time_t" := by
  have hmem : timespecEntry ∈ deadlines.entries := by decide
  have href : "time_t" ∈ timespecEntry.body.references := by decide
  have hfound : deadlines.lookup "time_t" .c = some timeEntry := by decide +kernel
  obtain ⟨e', he', hiff⟩ := reference_introduced_iff ofEntries_deadlines (d := .c) hmem rfl href
  rw [hfound] at he'
  cases he'
  exact ⟨ofEntries_deadlines, hmem, href, hfound, fun style => (hiff style).2 ⟨by decide, rfl⟩⟩

/-- **A checked table can refer to a name that nothing introduces.** -/
theorem tagOnly_reference_not_introduced :
    ofEntries (.ofModel "" .lp64) {} [timeEntry, timespecEntry, deadlineEntry] = .ok deadlines ∧
    deadlineEntry ∈ deadlines.entries ∧ deadlineEntry.scope.admits .c = true ∧
    "struct_timespec" ∈ deadlineEntry.body.references ∧
    deadlineEntry.body.declaration "deadline_t" = "typedef struct_timespec deadline_t;" ∧
    deadlines.lookup "struct_timespec" .c = some timespecEntry ∧
    timespecEntry.body.declaration "struct_timespec" = "struct timespec \x7b time_t tv_sec; \x7d;" ∧
    typedefName? (timespecEntry.body.declaration "struct_timespec") ≠ some "struct_timespec" := by
  refine ⟨ofEntries_deadlines, by decide, rfl, by decide, by decide +kernel, by decide +kernel, by decide +kernel, ?_⟩
  decide +kernel

end Table
end CAbi
