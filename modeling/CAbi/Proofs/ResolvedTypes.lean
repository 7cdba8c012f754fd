import Mathlib.Data.List.Forall2
import CAbi.Proofs.HeldByValue
import CAbi.Proofs.SpellingRoundTrip
/-!
# ResolvedTypes — the target's choice written out

The resolved text of a body is the text of another body, in which `_Addr`, `_Int64` and `_Reg` are the plain kinds that the
target chose.  Which body that is, is said here without the functions that build it (`CType.Resolves`, `Body.Resolves`): the
kind of a scalar changes, under pointers too, and nothing else does.

The other body means what the first one meant.  Its types can be written and are read back, because a target chooses among
the integers, and whatever sign keyword stood in front of the one kind can stand in front of the other
(`Resolves.spellable`).  Its layout is the same, because a kind has the size and the alignment of the kind it stands for,
overrides included (`Resolves.layout_eq`).
-/
namespace CAbi

/-- **A type and the type that the target makes of it.** -/
inductive CType.Resolves (t : Target) : CType → CType → Prop where
  | scalar {kind : ScalarKind} {sign : Sign} {implicitInt isVolatile : Bool} {pointers : List Bool} :
      Resolves t ⟨.scalar ⟨kind, sign, implicitInt⟩, isVolatile, pointers⟩
        ⟨.scalar ⟨t.concrete kind, sign, implicitInt⟩, isVolatile, pointers⟩
  | other {type : CType} (notScalar : ∀ s, type.base ≠ .scalar s) : Resolves t type type

structure Field.Resolves (t : Target) (f f' : Field) : Prop where
  name : f'.name = f.name
  length : f'.length = f.length
  type : CType.Resolves t f.type f'.type

/-- **A body and the body that the target makes of it**: the same shape over resolved types. -/
inductive Body.Resolves (t : Target) : Body → Body → Prop where
  | synonym {type type' : CType} (resolves : CType.Resolves t type type') : Resolves t (.synonym type) (.synonym type')
  | record {kind : AggregateKind} {tag : Option String} {tagOnly : Bool} {fields fields' : List Field}
      (resolves : List.Forall₂ (Field.Resolves t) fields fields') :
      Resolves t (.record ⟨kind, tag, tagOnly, fields⟩) (.record ⟨kind, tag, tagOnly, fields'⟩)
  | opaqueHandle {views views' : List Field} (resolves : List.Forall₂ (Field.Resolves t) views views') :
      Resolves t (.opaqueHandle views) (.opaqueHandle views')

/-! ## Styles, type by type

A style acts on every type of a body, and on nothing else of it. -/

namespace Style

/-- **The type that is written for a type.** -/
def onType (style : Style) (t : Target) (type : CType) : CType :=
  match style with
  | .portable => type
  | .resolved => type.mapKind t.concrete

def onField (style : Style) (t : Target) (f : Field) : Field := { f with type := style.onType t f.type }

theorem apply_synonym (style : Style) (t : Target) (type : CType) :
    style.apply t (.synonym type) = .synonym (style.onType t type) := by
  cases style <;> rfl

theorem map_onField_portable (t : Target) (fs : List Field) : fs.map (onField .portable t) = fs := List.map_id fs

theorem apply_record (style : Style) (t : Target) (r : Record) :
    style.apply t (.record r) = .record { r with fields := r.fields.map (style.onField t) } := by
  cases style with
  | portable => rw [map_onField_portable]; rfl
  | resolved => rfl

theorem apply_opaqueHandle (style : Style) (t : Target) (views : List Field) :
    style.apply t (.opaqueHandle views) = .opaqueHandle (views.map (style.onField t)) := by
  cases style with
  | portable => rw [map_onField_portable]; rfl
  | resolved => rfl

end Style

variable {t : Target}

theorem CType.resolves_onType (t : Target) (type : CType) : Resolves t type (Style.resolved.onType t type) := by
  obtain ⟨base, isVolatile, pointers⟩ := type
  cases base with
  | scalar s => exact .scalar
  | _ => exact .other nofun

theorem Field.resolves_map (t : Target) (fs : List Field) :
    List.Forall₂ (Field.Resolves t) fs (fs.map (Style.resolved.onField t)) := by
  rw [List.forall₂_map_right_iff, List.forall₂_same]
  exact fun f _ => ⟨rfl, rfl, f.type.resolves_onType t⟩

theorem Body.resolves_apply (t : Target) (b : Body) : Resolves t b (Style.resolved.apply t b) := by
  cases b with
  | synonym type =>
    rw [Style.apply_synonym]
    exact .synonym (type.resolves_onType t)
  | record r =>
    rw [Style.apply_record]
    exact .record (Field.resolves_map t r.fields)
  | opaqueHandle views =>
    rw [Style.apply_opaqueHandle]
    exact .opaqueHandle (Field.resolves_map t views)

/-! ## The text -/

theorem Target.concrete_cases (t : Target) (kind : ScalarKind) :
    (kind ∈ ScalarKind.targetChosen ∧ ∃ p : PlainInteger, t.concrete kind = p.kind) ∨
      (kind ∉ ScalarKind.targetChosen ∧ t.concrete kind = kind) := by
  cases kind with
  | addr | int64 | reg => exact .inl ⟨by decide, _, rfl⟩
  | _ => exact .inr ⟨by decide, rfl⟩

theorem PlainInteger.kind_mem_integers (p : PlainInteger) : p.kind ∈ ScalarKind.integers := by
  cases p <;> decide

theorem PlainInteger.kind_not_mem_targetChosen (p : PlainInteger) : p.kind ∉ ScalarKind.targetChosen := by
  cases p <;> decide

theorem Target.concrete_mem_integers (t : Target) {kind : ScalarKind} (h : kind ∈ ScalarKind.integers) :
    t.concrete kind ∈ ScalarKind.integers := by
  rcases t.concrete_cases kind with ⟨-, p, hp⟩ | ⟨-, hsame⟩
  · rw [hp]
    exact p.kind_mem_integers
  · rw [hsame]
    exact h

theorem Target.concrete_of_mem_floats (t : Target) {kind : ScalarKind} (h : kind ∈ ScalarKind.floats) :
    t.concrete kind = kind := by
  have hfloats : ∀ k ∈ ScalarKind.floats, k ∉ ScalarKind.targetChosen := by decide
  rcases t.concrete_cases kind with ⟨hchosen, -⟩ | ⟨-, hsame⟩
  · exact absurd hchosen (hfloats kind h)
  · exact hsame

theorem Target.concrete_not_mem_targetChosen (t : Target) (kind : ScalarKind) :
    t.concrete kind ∉ ScalarKind.targetChosen := by
  rcases t.concrete_cases kind with ⟨-, p, hp⟩ | ⟨hplain, hsame⟩
  · rw [hp]
    exact p.kind_not_mem_targetChosen
  · rw [hsame]
    exact hplain

theorem CType.Resolves.spellable {type type' : CType} (h : Resolves t type type') (hs : type.Spellable) :
    type'.Spellable := by
  cases h with
  | other notScalar => exact hs
  | scalar =>
    rcases hs with ⟨hkind, himplicit⟩ | ⟨hkind, hsign, himplicit⟩ | ⟨hkind, hsign, himplicit⟩
    · exact .inl ⟨t.concrete_mem_integers hkind, himplicit⟩
    · refine .inr (.inl ⟨?_, hsign, himplicit⟩)
      show t.concrete _ ∈ ScalarKind.floats
      rw [t.concrete_of_mem_floats hkind]
      exact hkind
    · -- a lone sign keyword means `int`, and no target changes `int`
      cases hkind
      exact .inr (.inr ⟨rfl, hsign, himplicit⟩)

theorem CType.Resolves.kind_not_mem {type type' : CType} (h : Resolves t type type') {s : Scalar}
    (hs : type'.base = .scalar s) : s.kind ∉ ScalarKind.targetChosen := by
  cases h with
  | other notScalar => exact absurd hs (notScalar s)
  | scalar =>
    cases hs
    exact t.concrete_not_mem_targetChosen _

theorem CType.Resolves.tagged {type type' : CType} (h : Resolves t type type') {kind : AggregateKind} {tag : String}
    (htag : type'.base = .tagged kind tag) : type.base = .tagged kind tag := by
  cases h with
  | other notScalar => exact htag
  | scalar => cases htag

namespace Spelling

/-- **The words whose meaning a target chooses.** -/
def chosenWords : List String := ["_Addr", "_Int64", "_Reg"]

theorem chosenWords_subset_reservedWords : chosenWords ⊆ reservedWords := by decide

theorem Qualifiers.not_mem_chosenWords {ws : List String} {v : Bool} (h : Qualifiers ws v) :
    ∀ w ∈ ws, w ∉ chosenWords := by
  induction h with
  | none => exact nofun
  | volatile _ ih => exact List.forall_mem_cons.2 ⟨by decide, ih⟩

theorem Levels.not_mem_chosenWords {ws : List String} {vs : List Bool} (h : Levels ws vs) :
    ∀ w ∈ ws, w ∉ chosenWords := by
  induction h with
  | none => exact nofun
  | level hq _ ih => exact List.forall_mem_cons.2 ⟨by decide, List.forall_mem_append.2 ⟨hq.not_mem_chosenWords, ih⟩⟩

theorem Integer.not_mem_chosenWords {ws : List String} {kind : ScalarKind} (h : Integer ws kind)
    (hkind : kind ∉ ScalarKind.targetChosen) : ∀ w ∈ ws, w ∉ chosenWords := by
  cases h <;> revert hkind <;> decide

theorem IsName.not_mem_chosenWords {w : String} (h : IsName w) : w ∉ chosenWords :=
  fun hw => h.2 (chosenWords_subset_reservedWords hw)

/-- A word that a target gives a meaning is written for a kind or as a tag. -/
theorem BaseSpelling.tagged_of_mem {ws : List String} {b : Base} (h : BaseSpelling ws b)
    (hkind : ∀ s, b = .scalar s → s.kind ∉ ScalarKind.targetChosen) {w : String} (hw : w ∈ ws)
    (hchosen : w ∈ chosenWords) : ∃ kind, b = .tagged kind w := by
  cases h with
  | integer hi => exact absurd hchosen (hi.not_mem_chosenWords (hkind _ rfl) w hw)
  | signedInteger hs hi =>
    rcases List.mem_cons.1 hw with rfl | hw
    · cases hs <;> exact absurd hchosen (by decide)
    · exact absurd hchosen (hi.not_mem_chosenWords (hkind _ rfl) w hw)
  | sign hs =>
    rw [List.mem_singleton.1 hw] at hchosen
    cases hs <;> exact absurd hchosen (by decide)
  | struct htag =>
    rcases List.mem_cons.1 hw with rfl | hw
    · exact absurd hchosen (by decide)
    · exact ⟨.struct, by rw [List.mem_singleton.1 hw]⟩
  | union htag =>
    rcases List.mem_cons.1 hw with rfl | hw
    · exact absurd hchosen (by decide)
    · exact ⟨.union, by rw [List.mem_singleton.1 hw]⟩
  | builtin hname _ =>
    rw [List.mem_singleton.1 hw] at hchosen
    exact absurd hchosen hname.not_mem_chosenWords
  | named hname _ =>
    rw [List.mem_singleton.1 hw] at hchosen
    exact absurd hchosen hname.not_mem_chosenWords
  | _ => exact absurd hchosen (by revert w; decide)

theorem Spells.tagged_of_mem {ws : List String} {type : CType} (h : Spells ws type)
    (hkind : ∀ s, type.base = .scalar s → s.kind ∉ ScalarKind.targetChosen) {w : String} (hw : w ∈ ws)
    (hchosen : w ∈ chosenWords) : ∃ kind, type.base = .tagged kind w := by
  cases h with
  | spelling hq hbase hlevels =>
    rcases List.mem_append.1 hw with hw | hw
    · rcases List.mem_append.1 hw with hw | hw
      · exact absurd hchosen (hq.not_mem_chosenWords w hw)
      · exact hbase.tagged_of_mem hkind hw hchosen
    · exact absurd hchosen (hlevels.not_mem_chosenWords w hw)

end Spelling

/-! ## The layout -/

section

variable (named : String → Option Layout)

theorem CType.Resolves.layout_eq {type type' : CType} (h : Resolves t type type') :
    type'.layout t named = type.layout t named := by
  cases h with
  | other notScalar => rfl
  | @scalar kind sign implicitInt isVolatile pointers =>
    cases pointers with
    | cons level levels => rfl
    | nil => simp only [CType.layout, t.sizeOf_concrete, t.alignOf_concrete]

theorem Field.Resolves.layout_eq {f f' : Field} (h : Resolves t f f') : f'.layout t named = f.layout t named := by
  unfold Field.layout Field.elementCount
  rw [h.type.layout_eq, h.length]

theorem fieldLayouts_resolves {fs fs' : List Field} (h : List.Forall₂ (Field.Resolves t) fs fs') :
    fieldLayouts t named fs' = fieldLayouts t named fs := by
  induction h with
  | nil => rfl
  | cons hf _ ih => rw [fieldLayouts_cons, fieldLayouts_cons, hf.layout_eq, ih]

theorem Body.Resolves.layout_eq {b b' : Body} (h : Resolves t b b') : b'.layout t named = b.layout t named := by
  cases h with
  | synonym resolves => exact resolves.layout_eq named
  | record resolves => simp only [Body.layout, fieldLayouts_resolves named resolves]
  | opaqueHandle resolves => simp only [Body.layout, fieldLayouts_resolves named resolves]

end

/-- **Resolved text means what the portable text means.**  The text that is written for a type that was read is read as
that type with the kind of its scalar replaced by what the target chose, and a word whose meaning a target chooses is left
only as a tag.  A body has the same layout, in every table of the target, when all its types are so replaced. -/
theorem Style.resolved_keeps_meaning (target : Target) :
    (∀ src type, CType.ofSpelling src = .ok type →
      ∃ type' ts, CType.Resolves target type type' ∧
        CType.ofSpelling (Style.resolved.onType target type).spelling = .ok type' ∧
        Spelling.tokenize (Style.resolved.onType target type).spelling = .ok ts ∧
        ∀ tok ∈ ts.list, tok.lexeme.text ∈ Spelling.chosenWords → ∃ kind, type.base = .tagged kind tok.lexeme.text) ∧
    ∀ t : Table, t.target = target → ∀ (d : Dialect) (b : Body),
      Body.Resolves target b (Style.resolved.apply target b) ∧
        t.bodyLayout d (Style.resolved.apply target b) = t.bodyLayout d b := by
  constructor
  · intro src type hsrc
    have hresolves := type.resolves_onType target
    have hspellable := hresolves.spellable (CType.spellable_of_ofSpelling hsrc)
    obtain ⟨ws, hspells, hreads⟩ := Spelling.readsAs_spelling hspellable
    obtain ⟨ts, hts, rfl⟩ := hreads 0
    refine ⟨_, ts, hresolves, CType.ofSpelling_spelling hspellable, hts, fun tok htok hchosen => ?_⟩
    obtain ⟨kind, htag⟩ :=
      hspells.tagged_of_mem (fun _ => hresolves.kind_not_mem) (List.mem_map_of_mem htok) hchosen
    exact ⟨kind, hresolves.tagged htag⟩
  · rintro t rfl d b
    have hresolves := b.resolves_apply t.target
    exact ⟨hresolves, hresolves.layout_eq _⟩

/-- A sign keyword over a chosen kind under a pointer, and an alignment that only the chosen kind has. -/
theorem Style.resolved_keeps_meaning_ilp32 :
    let target : Target := { Target.ofModel "" .ilp32 with align := { longLong := some 4 } }
    let type : CType := ⟨.scalar (.unsigned .addr), true, [false]⟩
    let b : Body := .record { fields := [{ name := "low", type := .scalar (.plain .char) },
      { name := "at", type := .scalar (.plain .int64), length := some (.bytes 16) }] }
    CType.ofSpelling "volatile unsigned _Addr *" = .ok type ∧
    CType.ofSpelling "volatile unsigned int *" = .ok ⟨.scalar (.unsigned .int), true, [false]⟩ ∧
    (Style.resolved.apply target b).declaration "stamp" =
      "typedef struct \x7b char low; long long at[16/sizeof(long long)]; \x7d stamp;" ∧
    (Table.empty target {}).bodyLayout .c b = some ⟨20, 4⟩ ∧
    (Table.empty target {}).bodyLayout .c (Style.resolved.apply target b) = some ⟨20, 4⟩ := by
  intro target type b
  have htext : type.spelling = "volatile unsigned _Addr *" := by decide
  have hresolved : (Style.resolved.onType target type).spelling = "volatile unsigned int *" := by decide
  have hlayout : (Table.empty target {}).bodyLayout .c b = some ⟨20, 4⟩ := by decide
  have hsrc : CType.ofSpelling "volatile unsigned _Addr *" = .ok type := by
    rw [← htext]
    exact CType.ofSpelling_spelling (by decide)
  obtain ⟨type', ts, hresolves, hread, -⟩ := (Style.resolved_keeps_meaning target).1 _ type hsrc
  rw [hresolved] at hread
  replace hresolves : CType.Resolves target ⟨.scalar ⟨.addr, .unsigned, false⟩, true, [false]⟩ type' := hresolves
  refine ⟨hsrc, ?_, by decide +kernel, hlayout, ?_⟩
  · cases hresolves with
    | other notScalar => exact absurd rfl (notScalar _)
    | scalar => exact hread
  · exact (((Style.resolved_keeps_meaning target).2 _ rfl .c b).2).trans hlayout

end CAbi
