import CAbi.Declaration
import CAbi.Proofs.HeldByValue
import CAbi.Proofs.SpellingGrammar
import CAbi.Proofs.TemplateShape
/-!
# DeclarationLine — a declaration is one line that begins with a keyword

Every text in a declaration is a fixed one, a number, or a word of its body.  Where the words are identifiers
(`Body.Spelled`), nothing in it ends the line, and nothing before the first blank but the keyword.
-/
namespace CAbi

/-- The tag a body declares. -/
def Body.tag? : Body → Option String
  | .record r => r.tag
  | _ => none

/-- **A body in words of C**: its types were read from spellings, and its members and tag are identifiers. -/
structure Body.Spelled (b : Body) : Prop where
  types : ∀ type ∈ b.types, ∃ src, CType.ofSpelling src = .ok type
  members : ∀ f ∈ b.members, Identifier.valid f.name.toList = true
  tag : ∀ tag ∈ b.tag?, Identifier.valid tag.toList = true

/-! ## The characters of a declaration

Which characters the parts of a declaration are made of decides where a text that holds them can be cut. -/

/-- **The characters of a type's text**: those of words, blanks and stars. -/
def CType.isTextChar (c : Char) : Bool := Identifier.isRest c || c == ' ' || c == '*'

/-- **The characters of a declarator**: those of its type, and what a bound is written with. -/
def Field.isTextChar (c : Char) : Bool := CType.isTextChar c || "[/()]".toList.contains c

theorem CType.isTextChar_of_isRest {c : Char} (h : Identifier.isRest c = true) : isTextChar c = true := by
  simp [isTextChar, h]

theorem Field.isTextChar_of_type {c : Char} (h : CType.isTextChar c = true) : isTextChar c = true := by
  simp [isTextChar, h]

theorem not_mem_of_all {p : Char → Bool} {cs : List Char} (h : cs.all p = true) {c : Char} (hc : p c = false) : c ∉ cs := by
  intro hmem
  rw [List.all_eq_true.1 h c hmem] at hc
  cases hc

theorem Identifier.newline_not_mem {s : String} (h : valid s.toList = true) : '\n' ∉ s.toList :=
  not_mem_of_valid h (by decide)

theorem Identifier.all_isTextChar {s : String} (h : valid s.toList = true) :
    s.toList.all CType.isTextChar = true :=
  List.all_eq_true.2 fun c hc => CType.isTextChar_of_isRest (all_isRest_of_valid h c hc)

theorem ScalarKind.all_isTextChar (k : ScalarKind) : k.spelling.toList.all CType.isTextChar = true := by
  cases k <;> decide

theorem ScalarKind.newline_not_mem_spelling (k : ScalarKind) : '\n' ∉ k.spelling.toList :=
  not_mem_of_all k.all_isTextChar (by decide)

theorem Scalar.all_isTextChar (s : Scalar) : s.spelling.toList.all CType.isTextChar = true := by
  have hkind := s.kind.all_isTextChar
  unfold Scalar.spelling
  cases s.sign with
  | plain => exact hkind
  | signed | unsigned =>
    simp only [Sign.keyword?]
    split
    · decide
    · simp only [String.toList_append, List.all_append, hkind]
      decide

theorem AggregateKind.all_isTextChar (k : AggregateKind) : k.keyword.toList.all CType.isTextChar = true := by
  cases k <;> decide

theorem Base.all_isTextChar {b : Base} (h : ∀ w ∈ b.word?, Identifier.valid w.toList = true) :
    b.spelling.toList.all CType.isTextChar = true := by
  cases b with
  | void => decide
  | scalar s => exact s.all_isTextChar
  | builtin name => exact Identifier.all_isTextChar (h name rfl)
  | named name => exact Identifier.all_isTextChar (h name rfl)
  | tagged kind tag =>
    simp only [Base.spelling, String.toList_append, List.all_append, kind.all_isTextChar,
      Identifier.all_isTextChar (h tag rfl)]
    decide

namespace CType

theorem all_isTextChar_foldl (pointers : List Bool) {text : String} (h : text.toList.all isTextChar = true) :
    (pointers.foldl addLevel text).toList.all isTextChar = true := by
  induction pointers generalizing text with
  | nil => exact h
  | cons isVolatile pointers ih =>
    refine ih ?_
    simp only [addLevel, String.toList_append, List.all_append, h]
    split <;> split <;> decide

variable {type : CType}

theorem all_isTextChar (h : ∀ w ∈ type.base.word?, Identifier.valid w.toList = true) :
    type.spelling.toList.all isTextChar = true := by
  rw [spelling]
  refine all_isTextChar_foldl _ ?_
  simp only [String.toList_append, List.all_append, Base.all_isTextChar h]
  split <;> decide

theorem all_isTextChar_elementSpelling (h : ∀ w ∈ type.base.word?, Identifier.valid w.toList = true) :
    type.elementSpelling.toList.all isTextChar = true := by
  unfold elementSpelling
  split
  · exact Scalar.all_isTextChar _
  · exact all_isTextChar h

end CType

theorem all_isDigit_repr (n : Nat) : n.repr.toList.all Char.isDigit = true := by
  refine List.all_eq_true.2 fun c hc => ?_
  have hc : c ∈ Nat.toDigits 10 n := by simpa using hc
  exact Nat.isDigit_of_mem_toDigits (by decide) (by decide) hc

namespace Field

variable {f : Field}

theorem all_isTextChar_of_type {cs : List Char} (h : cs.all CType.isTextChar = true) : cs.all isTextChar = true :=
  List.all_eq_true.2 fun c hc => isTextChar_of_type (List.all_eq_true.1 h c hc)

theorem all_isTextChar_repr (n : Nat) : n.repr.toList.all isTextChar = true := by
  refine List.all_eq_true.2 fun c hc => isTextChar_of_type (CType.isTextChar_of_isRest ?_)
  simp [Identifier.isRest, Char.isAlphanum, List.all_eq_true.1 (all_isDigit_repr n) c hc]

theorem all_isTextChar_bound (htype : ∀ w ∈ f.type.base.word?, Identifier.valid w.toList = true) :
    f.bound.toList.all isTextChar = true := by
  unfold bound
  split
  · decide
  · simp only [String.toList_append, List.all_append, all_isTextChar_repr]
    decide
  · simp only [String.toList_append, List.all_append, all_isTextChar_repr,
      all_isTextChar_of_type (CType.all_isTextChar_elementSpelling htype)]
    decide

theorem all_isTextChar (htype : ∀ w ∈ f.type.base.word?, Identifier.valid w.toList = true)
    (hname : Identifier.valid f.name.toList = true) : f.declarator.toList.all isTextChar = true := by
  simp only [declarator, String.toList_append, List.all_append, all_isTextChar_bound htype,
    all_isTextChar_of_type (CType.all_isTextChar htype), all_isTextChar_of_type (Identifier.all_isTextChar hname)]
  split <;> decide

end Field

theorem newline_not_mem_membersText {fs : List Field} (h : ∀ f ∈ fs, '\n' ∉ f.declarator.toList) :
    '\n' ∉ (membersText fs).toList := by
  simpa [membersText] using h

theorem Body.declaration_synonym (type : CType) (name : String) :
    (Body.synonym type).declaration name = "typedef " ++ ({ name := name, type := type } : Field).declarator ++ ";" := rfl

theorem Body.declaration_opaqueHandle (views : List Field) (name : String) :
    (Body.opaqueHandle views).declaration name =
      "typedef struct \x7b union " ++ membersText views ++ " __u; \x7d " ++ name ++ ";" := rfl

theorem Body.type_mem_types {b : Body} {f : Field} (hf : f ∈ b.members) : f.type ∈ b.types := by
  cases b with
  | synonym type => cases hf
  | record r => exact List.mem_map_of_mem hf
  | opaqueHandle views => exact List.mem_map_of_mem hf

namespace Body.Spelled

variable {b : Body} {name : String}

theorem words (h : b.Spelled) : ∀ type ∈ b.types, ∀ w ∈ type.base.word?, Identifier.valid w.toList = true := by
  intro type hmem
  obtain ⟨src, hsrc⟩ := h.types type hmem
  exact CType.word_valid_of_ofSpelling hsrc

theorem newline_not_mem_members (h : b.Spelled) : '\n' ∉ (membersText b.members).toList :=
  newline_not_mem_membersText fun f hf =>
    not_mem_of_all (Field.all_isTextChar (h.words f.type (type_mem_types hf)) (h.members f hf)) (by decide)

theorem newline_not_mem_declaration (h : b.Spelled) (hname : Identifier.valid name.toList = true) :
    '\n' ∉ (b.declaration name).toList := by
  have hn := Identifier.newline_not_mem hname
  have hmembers := h.newline_not_mem_members
  cases b with
  | synonym type =>
    have hwords := h.words type (List.mem_singleton.2 rfl)
    have hfield : '\n' ∉ ({ name := name, type := type } : Field).declarator.toList :=
      not_mem_of_all (Field.all_isTextChar hwords hname) (by decide)
    simp [Body.declaration_synonym, hfield]
  | record r =>
    replace hmembers : '\n' ∉ (membersText r.fields).toList := hmembers
    have hkind : '\n' ∉ r.kind.keyword.toList := not_mem_of_all r.kind.all_isTextChar (by decide)
    have htag : ∀ tag, r.tag = some tag → '\n' ∉ tag.toList := fun tag ht => Identifier.newline_not_mem (h.tag tag ht)
    show '\n' ∉ (r.declaration name).toList
    unfold Record.declaration
    split
    · simp [hkind, hmembers, htag _ ‹_›]
    · simp [hkind, hmembers, htag _ ‹_›, hn]
    · simp [hkind, hmembers, hn]
  | opaqueHandle views =>
    replace hmembers : '\n' ∉ (membersText views).toList := hmembers
    simp [Body.declaration_opaqueHandle, hn, hmembers]

end Body.Spelled

/-- **A declaration begins with a keyword.** -/
theorem Body.declaration_keyword (b : Body) (name : String) :
    ∃ w cs, (b.declaration name).toList = w ++ ' ' :: cs ∧ Identifier.valid w = true := by
  cases b with
  | synonym type => exact ⟨"typedef".toList, _, by simp [Body.declaration_synonym]; rfl, by decide⟩
  | opaqueHandle views => exact ⟨"typedef".toList, _, by simp [Body.declaration_opaqueHandle]; rfl, by decide⟩
  | record r =>
    have hkind : Identifier.valid r.kind.keyword.toList = true := by cases r.kind <;> decide
    show ∃ w cs, (r.declaration name).toList = w ++ ' ' :: cs ∧ Identifier.valid w = true
    unfold Record.declaration
    split
    · exact ⟨r.kind.keyword.toList, _, by simp; rfl, hkind⟩
    · exact ⟨"typedef".toList, _, by simp; rfl, by decide⟩
    · exact ⟨"typedef".toList, _, by simp; rfl, by decide⟩

end CAbi
