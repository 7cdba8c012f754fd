import CAbi.Proofs.Insertion
import CAbi.Proofs.Stages
import CAbi.Table.Layout
/-!
# HeldByValue — which names a layout depends on

A body's layout is computed against a reading of names.  It asks for the names the body holds by value (`Body.held`)
and for no others: two readings that agree on them give one layout (`Body.layout_congr`), and a reading that misses one
of them gives none (`Body.isSome_of_held`).

Reading through more names therefore never changes a layout that is known.  With `Stages` this makes the bounded reading
a fixed point: the layout of a name is the layout of its body, as if there were no bound (`Table.layoutOf_eq`).
-/
namespace CAbi

/-- **The name a type holds by value**: a pointer holds none. -/
def CType.held? (type : CType) : Option String :=
  match type.pointers, type.base with
  | [], .named name => some name
  | _, _ => none

/-- The types a body is made of. -/
def Body.types : Body → List CType
  | .synonym type => [type]
  | .record r => r.fields.map (·.type)
  | .opaqueHandle views => views.map (·.type)

/-- **The names a body holds by value.** -/
def Body.held (b : Body) : List String := b.types.filterMap CType.held?

theorem Body.references_eq (b : Body) : b.references = b.types.filterMap CType.reference? := by
  cases b with
  | synonym type =>
    show type.reference?.toList = [type].filterMap CType.reference?
    cases h : type.reference? <;> simp [h]
  | record r =>
    show _ = (r.fields.map (·.type)).filterMap CType.reference?
    rw [List.filterMap_map]
    rfl
  | opaqueHandle views =>
    show _ = (views.map (·.type)).filterMap CType.reference?
    rw [List.filterMap_map]
    rfl

section

variable {t : Target} {named named' : String → Option Layout}

theorem CType.layout_congr {type : CType} (h : ∀ n ∈ type.held?, named n = named' n) :
    type.layout t named = type.layout t named' := by
  obtain ⟨base, isVolatile, pointers⟩ := type
  cases pointers with
  | cons _ _ => rfl
  | nil =>
    cases base with
    | named name => exact h name rfl
    | _ => rfl

theorem CType.layout_of_held (t : Target) (named : String → Option Layout) {type : CType} {n : String}
    (hn : n ∈ type.held?) : type.layout t named = named n := by
  obtain ⟨base, isVolatile, pointers⟩ := type
  cases pointers with
  | cons _ _ => simp [held?] at hn
  | nil =>
    cases base with
    | named name =>
      simp only [held?, Option.mem_def, Option.some.injEq] at hn
      rw [← hn]; rfl
    | _ => simp [held?] at hn

/-- **What holds of every layout of a type**: enough that it holds of pointers, scalars and compiler types, and of the
name that the type holds. -/
theorem CType.forall_of_layout {P : Layout → Prop} {type : CType} {l : Layout}
    (hpointer : P ⟨t.widths.pointer, t.widths.pointer⟩) (hscalar : ∀ kind, P ⟨t.sizeOf kind, t.alignOf kind⟩)
    (hbuiltin : ∀ b ∈ t.builtins, P ⟨b.size, b.align⟩) (hnamed : ∀ n ∈ type.held?, ∀ m, named n = some m → P m)
    (h : type.layout t named = some l) : P l := by
  obtain ⟨base, v, pointers⟩ := type
  cases pointers with
  | cons level levels => cases h; exact hpointer
  | nil =>
    cases base with
    | void => cases h
    | tagged kind tag => cases h
    | scalar s => cases h; exact hscalar s.kind
    | builtin name =>
      obtain ⟨b, hb, rfl⟩ := Option.map_eq_some_iff.1 h
      exact hbuiltin b (List.mem_of_find?_eq_some hb)
    | named name => exact hnamed name rfl l h

theorem Field.layout_congr {f : Field} (h : ∀ n ∈ f.type.held?, named n = named' n) :
    f.layout t named = f.layout t named' := by
  unfold Field.layout
  rw [CType.layout_congr h]

theorem Field.isSome_of_held {f : Field} {l : Layout} (h : f.layout t named = some l) {n : String}
    (hn : n ∈ f.type.held?) : (named n).isSome = true := by
  rw [← CType.layout_of_held t named hn]
  unfold Field.layout at h
  cases hty : f.type.layout t named with
  | none => rw [hty] at h; cases h
  | some _ => rfl

theorem fieldLayouts_cons (t : Target) (named : String → Option Layout) (f : Field) (fs : List Field) :
    fieldLayouts t named (f :: fs) =
      (f.layout t named).bind fun l => (fieldLayouts t named fs).bind fun ls => some (l :: ls) := by
  unfold fieldLayouts
  rw [List.mapM_cons]
  rfl

theorem fieldLayouts_cons_eq_some {f : Field} {fs : List Field} {ls : List Layout} :
    fieldLayouts t named (f :: fs) = some ls ↔
      ∃ m ms, f.layout t named = some m ∧ fieldLayouts t named fs = some ms ∧ ls = m :: ms := by
  rw [fieldLayouts_cons]
  simp only [Option.bind_eq_some_iff, Option.some.injEq]
  constructor
  · rintro ⟨m, hm, ms, hms, rfl⟩
    exact ⟨m, ms, hm, hms, rfl⟩
  · rintro ⟨m, ms, hm, hms, rfl⟩
    exact ⟨m, hm, ms, hms, rfl⟩

theorem fieldLayouts_congr {fs : List Field} (h : ∀ n ∈ (fs.map (·.type)).filterMap CType.held?, named n = named' n) :
    fieldLayouts t named fs = fieldLayouts t named' fs := by
  induction fs with
  | nil => rfl
  | cons f fs ih =>
    have hf : ∀ n ∈ f.type.held?, named n = named' n := fun n hn =>
      h n (List.mem_filterMap.2 ⟨f.type, List.mem_cons_self, hn⟩)
    have hfs : ∀ n ∈ (fs.map (·.type)).filterMap CType.held?, named n = named' n := fun n hn => by
      obtain ⟨type, htype, hheld⟩ := List.mem_filterMap.1 hn
      exact h n (List.mem_filterMap.2 ⟨type, List.mem_cons_of_mem _ htype, hheld⟩)
    rw [fieldLayouts_cons, fieldLayouts_cons, Field.layout_congr hf, ih hfs]

theorem fieldLayouts_isSome_of_held {fs : List Field} {ls : List Layout} (h : fieldLayouts t named fs = some ls)
    {n : String} (hn : n ∈ (fs.map (·.type)).filterMap CType.held?) : (named n).isSome = true := by
  induction fs generalizing ls with
  | nil => cases hn
  | cons f fs ih =>
    obtain ⟨m, ms, hm, hms, rfl⟩ := fieldLayouts_cons_eq_some.1 h
    obtain ⟨type, htype, hheld⟩ := List.mem_filterMap.1 hn
    rcases List.mem_cons.1 htype with rfl | htype
    · exact Field.isSome_of_held hm hheld
    · exact ih hms (List.mem_filterMap.2 ⟨type, htype, hheld⟩)

/-- **Only the names held by value matter.** -/
theorem Body.layout_congr {b : Body} (h : ∀ n ∈ b.held, named n = named' n) :
    b.layout t named = b.layout t named' := by
  cases b with
  | synonym type => exact CType.layout_congr fun n hn => h n (List.mem_filterMap.2 ⟨type, List.mem_cons_self, hn⟩)
  | record r => simp only [Body.layout, fieldLayouts_congr h]
  | opaqueHandle views => simp only [Body.layout, fieldLayouts_congr h]

/-- **Every name held by value is needed.** -/
theorem Body.isSome_of_held {b : Body} {l : Layout} (h : b.layout t named = some l) {n : String} (hn : n ∈ b.held) :
    (named n).isSome = true := by
  cases b with
  | synonym type =>
    obtain ⟨type', htype, hheld⟩ := List.mem_filterMap.1 hn
    rw [List.mem_singleton.1 htype] at hheld
    rw [← CType.layout_of_held t named hheld]
    exact Option.isSome_iff_exists.2 ⟨l, h⟩
  | record r =>
    obtain ⟨ls, hls, -⟩ := Option.bind_eq_some_iff.1 h
    exact fieldLayouts_isSome_of_held hls hn
  | opaqueHandle views =>
    obtain ⟨ls, hls, -⟩ := Option.bind_eq_some_iff.1 h
    exact fieldLayouts_isSome_of_held hls hn

/-- **A reading that knows more changes no known layout.** -/
theorem Body.layout_mono {b : Body} {l : Layout} (hle : ∀ n m, named n = some m → named' n = some m)
    (h : b.layout t named = some l) : b.layout t named' = some l := by
  rw [← h]
  refine (Body.layout_congr fun n hn => ?_).symm
  obtain ⟨m, hm⟩ := Option.isSome_iff_exists.1 (Body.isSome_of_held h hn)
  rw [hm, hle n m hm]

end

/-! ## The bound of the table -/

namespace Table

variable {t : Table} {d : Dialect}

theorem layoutWithin_succ {n : Nat} {name : String} {l : Layout} (h : t.layoutWithin d n name = some l) :
    t.layoutWithin d (n + 1) name = some l := by
  induction n generalizing name l with
  | zero => cases h
  | succ n ih =>
    obtain ⟨e, he, hl⟩ := Option.bind_eq_some_iff.1 h
    exact Option.bind_eq_some_iff.2 ⟨e, he, Body.layout_mono (fun _ _ => ih) hl⟩

theorem layoutWithin_stages (t : Table) (d : Dialect) :
    Stages (t.entries.map (·.name)) fun n name => (t.layoutWithin d n name).isSome = true where
  grows n name h := by
    obtain ⟨l, hl⟩ := Option.isSome_iff_exists.1 h
    exact Option.isSome_iff_exists.2 ⟨l, layoutWithin_succ hl⟩
  bounded n name h := by
    cases n with
    | zero => cases h
    | succ n =>
      obtain ⟨l, hl⟩ := Option.isSome_iff_exists.1 h
      obtain ⟨e, he, -⟩ := Option.bind_eq_some_iff.1 hl
      obtain ⟨hmem, hname, -⟩ := mem_of_lookup_eq_some he
      exact List.mem_map.2 ⟨e, hmem, hname⟩
  settles n h name hname := by
    -- Two stages that know the same names are the same reading, so the stage after them is computed from the same.
    have heq : t.layoutWithin d (n + 1) = t.layoutWithin d n := by
      funext x
      cases hx : t.layoutWithin d n x with
      | some l => exact layoutWithin_succ hx
      | none =>
        cases hx' : t.layoutWithin d (n + 1) x with
        | none => rfl
        | some l => have := h x (by rw [hx']; rfl); rw [hx] at this; cases this
    have hstep : t.layoutWithin d (n + 2) name = t.layoutWithin d (n + 1) name :=
      calc t.layoutWithin d (n + 2) name
        _ = (t.lookup name d).bind fun e => e.body.layout t.target (t.layoutWithin d (n + 1)) := rfl
        _ = (t.lookup name d).bind fun e => e.body.layout t.target (t.layoutWithin d n) := by rw [heq]
        _ = t.layoutWithin d (n + 1) name := rfl
    rw [← hstep]
    exact hname

/-- **The layout of a name is the layout of its body**: looking through as many names as the table has entries is
looking through any number of them. -/
theorem layoutOf_eq (t : Table) (d : Dialect) (name : String) :
    t.layoutOf d name = (t.lookup name d).bind fun e => t.bodyLayout d e.body := by
  show t.layoutWithin d (t.size + 1) name = t.layoutWithin d (t.size + 2) name
  cases hmore : t.layoutWithin d (t.size + 2) name with
  | none =>
    cases hless : t.layoutWithin d (t.size + 1) name with
    | none => rfl
    | some l => rw [layoutWithin_succ hless] at hmore; cases hmore
  | some l =>
    have hbound : (t.entries.map (·.name)).length ≤ t.size + 1 := by
      rw [List.length_map]; exact Nat.le_succ _
    have hknown := (layoutWithin_stages t d).known_length hbound (n := t.size + 2) (x := name) (by rw [hmore]; rfl)
    obtain ⟨l', hl'⟩ := Option.isSome_iff_exists.1 hknown
    rw [hl', ← layoutWithin_succ hl', hmore]

end Table
end CAbi
