import Mathlib.Order.WellFoundedSet
import CAbi.Proofs.Acceptance
import CAbi.Proofs.LayoutRelation
import CAbi.Proofs.Placement
/-!
# MissingLayout — why a name has no layout

A layout can be missing for many reasons: the name is unknown, a type holds itself, an alignment is zero, a type is
incomplete, a size does not fit.  The checks of a table rule out the first three, for its entries and for everything
they hold.  What is left are the reasons C has itself: somewhere among the types held by value there is one that is
incomplete (`CType.Incomplete`), or an array, struct or union of known parts that is too large (`Body.Oversized`).

One body is looked at first, against any reading of names (`Body.layout_eq_none_iff`); a name is missing a layout for
a reason of its own body or because a name it holds is missing one, and in a checked table that chain ends.
-/
namespace CAbi

/-- **A type of unknown size**: `void`, a bare tag, or a compiler type the target does not declare. -/
inductive CType.Incomplete (t : Target) : CType → Prop
  | void {v : Bool} : Incomplete t ⟨.void, v, []⟩
  | tagged {kind : AggregateKind} {tag : String} {v : Bool} : Incomplete t ⟨.tagged kind tag, v, []⟩
  | builtin {name : String} {v : Bool} (undeclared : ∀ b ∈ t.builtins, b.name ≠ name) :
      Incomplete t ⟨.builtin name, v, []⟩

/-- **How the members of a body lie**: the views of a handle as the members of a union. -/
def Body.kind? : Body → Option AggregateKind
  | .synonym _ => none
  | .record r => some r.kind
  | .opaqueHandle _ => some .union

/-- **A body with an array, struct or union whose parts are known and whose exact size does not fit.** -/
inductive Body.Oversized (t : Target) (named : String → Option Layout) (b : Body) : Prop
  | array {f : Field} {element : Layout} (member : f ∈ b.members) (known : f.type.layout t named = some element)
      (large : UInt32.size ≤ (f.extent element).size)
  | struct {ms : List Layout} (kind : b.kind? = some .struct) (known : fieldLayouts t named b.members = some ms)
      (large : UInt32.size ≤ Extent.structSize (ms.map Layout.extent))
  | union {ms : List Layout} (kind : b.kind? = some .union) (known : fieldLayouts t named b.members = some ms)
      (large : UInt32.size ≤ Extent.unionSize (ms.map Layout.extent))

section

variable {t : Target} {named : String → Option Layout} {b : Body}

theorem Body.layout_of_kind {kind : AggregateKind} (h : b.kind? = some kind) :
    b.layout t named = (fieldLayouts t named b.members).bind (Layout.ofAggregate kind) := by
  cases b with
  | synonym type => cases h
  | record r => cases h; rfl
  | opaqueHandle views => cases h; rfl

theorem Body.types_of_kind {kind : AggregateKind} (h : b.kind? = some kind) : b.types = b.members.map (·.type) := by
  cases b with
  | synonym type => cases h
  | record r => rfl
  | opaqueHandle views => rfl

theorem Body.cases_kind (b : Body) : (∃ type, b = .synonym type) ∨ ∃ kind, b.kind? = some kind := by
  cases b with
  | synonym type => exact .inl ⟨type, rfl⟩
  | record r => exact .inr ⟨r.kind, rfl⟩
  | opaqueHandle views => exact .inr ⟨.union, rfl⟩

end

/-! ## Alignments

The alignment of a layout is one that the target brings: an aggregate takes the largest of its members, and adds none of
its own.  A target without zeros therefore gives no type the alignment zero. -/

/-- **The alignments a target brings**: of its scalars, its pointers and its compiler types. -/
def Target.alignments (t : Target) : List UInt32 :=
  ScalarKind.all.map t.alignOf ++ t.widths.pointer :: t.builtins.map (·.align)

theorem Target.alignOf_mem_alignments (t : Target) (kind : ScalarKind) : t.alignOf kind ∈ t.alignments := by
  refine List.mem_append_left _ (List.mem_map_of_mem ?_)
  cases kind <;> decide

theorem Target.Sound.alignOf_ne_zero {t : Target} (h : t.Sound) (kind : ScalarKind) : t.alignOf kind ≠ 0 := by
  unfold Target.alignOf
  cases ho : t.override? (t.concrete kind) with
  | none => exact h.sizes kind
  | some align => exact fun hzero => h.overrides _ (ho.trans (congrArg some hzero))

theorem Target.Sound.ne_zero_of_mem_alignments {t : Target} (h : t.Sound) : ∀ a ∈ t.alignments, a ≠ 0 := by
  unfold Target.alignments
  simp only [List.mem_append, List.mem_cons, List.mem_map]
  rintro a (⟨kind, -, rfl⟩ | rfl | ⟨b, hb, rfl⟩)
  · exact h.alignOf_ne_zero kind
  · exact h.pointer
  · exact (h.builtins b hb).2

theorem Layout.foldl_align_mem : ∀ (ms : List Layout) (a : UInt32),
    ms.foldl (fun a m => max a m.align) a = a ∨ ∃ m ∈ ms, ms.foldl (fun a m => max a m.align) a = m.align
  | [], _ => .inl rfl
  | m :: ms, a => by
    rw [List.foldl_cons]
    rcases foldl_align_mem ms (max a m.align) with h | ⟨x, hx, h⟩
    · -- of two words the larger is one of the two
      rcases ite_eq_or_eq (a ≤ m.align) m.align a with hmax | hmax
      · exact .inr ⟨m, List.mem_cons_self, h.trans hmax⟩
      · exact .inl (h.trans hmax)
    · exact .inr ⟨x, List.mem_cons_of_mem _ hx, h⟩

theorem Layout.ofStruct_align {ms : List Layout} {l : Layout} (h : ofStruct ms = some l) :
    l.align = largestAlign ms := by
  obtain ⟨stop, -, h⟩ := Option.bind_eq_some_iff.1 h
  obtain ⟨size, -, h⟩ := Option.bind_eq_some_iff.1 h
  cases h
  rfl

theorem Layout.ofUnion_align {ms : List Layout} {l : Layout} (h : ofUnion ms = some l) :
    l.align = largestAlign ms := by
  obtain ⟨size, -, h⟩ := Option.bind_eq_some_iff.1 h
  cases h
  rfl

theorem Layout.ofAggregate_align {kind : AggregateKind} {ms : List Layout} {l : Layout}
    (h : ofAggregate kind ms = some l) : l.align = largestAlign ms := by
  cases kind with
  | struct => exact ofStruct_align h
  | union => exact ofUnion_align h

section

variable {t : Target} {named : String → Option Layout} {Q : UInt32 → Prop}

theorem CType.align_of_layout (hQ : ∀ a ∈ t.alignments, Q a) (hnamed : ∀ n l, named n = some l → Q l.align)
    {type : CType} {l : Layout} (h : type.layout t named = some l) : Q l.align := by
  refine CType.forall_of_layout (P := fun l => Q l.align) ?_ (fun kind => ?_) (fun b hb => ?_) (fun n _ => hnamed n) h
  · exact hQ _ (List.mem_append_right _ List.mem_cons_self)
  · exact hQ _ (t.alignOf_mem_alignments kind)
  · exact hQ _ (List.mem_append_right _ (List.mem_cons_of_mem _ (List.mem_map_of_mem hb)))

theorem Field.align_of_layout (hQ : ∀ a ∈ t.alignments, Q a) (hnamed : ∀ n l, named n = some l → Q l.align)
    {f : Field} {l : Layout} (h : f.layout t named = some l) : Q l.align := by
  obtain ⟨element, helement, h⟩ := Option.bind_eq_some_iff.1 h
  obtain ⟨size, -, h⟩ := Option.bind_eq_some_iff.1 h
  cases h
  show Q element.align
  exact CType.align_of_layout hQ hnamed helement

theorem align_of_mem_fieldLayouts (hQ : ∀ a ∈ t.alignments, Q a) (hnamed : ∀ n l, named n = some l → Q l.align) :
    ∀ {fs : List Field} {ms : List Layout}, fieldLayouts t named fs = some ms → ∀ m ∈ ms, Q m.align
  | [], _, h, m, hm => by cases h; cases hm
  | f :: fs, _, h, m, hm => by
    obtain ⟨l, ls, hl, hls, rfl⟩ := fieldLayouts_cons_eq_some.1 h
    rcases List.mem_cons.1 hm with rfl | hm
    · exact Field.align_of_layout hQ hnamed hl
    · exact align_of_mem_fieldLayouts hQ hnamed hls m hm

/-- **What holds of the target's alignments holds of every body's.**  An aggregate without a larger one has the
alignment of `char`. -/
theorem Body.align_of_layout (hQ : ∀ a ∈ t.alignments, Q a) (hnamed : ∀ n l, named n = some l → Q l.align)
    {b : Body} {l : Layout} (h : b.layout t named = some l) : Q l.align := by
  rcases b.cases_kind with ⟨type, rfl⟩ | ⟨kind, hkind⟩
  · exact CType.align_of_layout hQ hnamed h
  · rw [Body.layout_of_kind hkind] at h
    obtain ⟨ms, hms, hl⟩ := Option.bind_eq_some_iff.1 h
    rw [Layout.ofAggregate_align hl]
    unfold Layout.largestAlign
    rcases Layout.foldl_align_mem ms 1 with hone | ⟨m, hm, heq⟩
    · rw [hone]
      exact hQ _ (t.alignOf_mem_alignments .char)
    · rw [heq]
      exact align_of_mem_fieldLayouts hQ hnamed hms m hm

/-! ## One body -/

theorem Target.builtin?_eq_none_iff {name : String} : t.builtin? name = none ↔ ∀ b ∈ t.builtins, b.name ≠ name := by
  unfold Target.builtin?
  rw [List.find?_eq_none]
  simp only [beq_iff_eq, ne_eq]

theorem CType.layout_eq_none_iff {type : CType} :
    type.layout t named = none ↔ type.Incomplete t ∨ ∃ n ∈ type.held?, named n = none := by
  constructor
  · intro h
    obtain ⟨base, v, pointers⟩ := type
    cases pointers with
    | cons level levels => cases h
    | nil =>
      cases base with
      | void => exact .inl .void
      | tagged kind tag => exact .inl .tagged
      | scalar s => cases h
      | builtin name => exact .inl (.builtin (Target.builtin?_eq_none_iff.1 (Option.map_eq_none_iff.1 h)))
      | named name => exact .inr ⟨name, rfl, h⟩
  · rintro (h | ⟨n, hn, hnone⟩)
    · cases h with
      | void => rfl
      | tagged => rfl
      | builtin undeclared => exact Option.map_eq_none_iff.2 (Target.builtin?_eq_none_iff.2 undeclared)
    · rw [CType.layout_of_held t named hn]
      exact hnone

/-- **A field has no layout if its element has none, or if it is an array that is too large.** -/
theorem Field.layout_eq_none_iff {f : Field} :
    f.layout t named = none ↔ f.type.layout t named = none ∨
      ∃ element, f.type.layout t named = some element ∧ UInt32.size ≤ (f.extent element).size := by
  cases h : f.type.layout t named with
  | none =>
    refine ⟨fun _ => .inl rfl, fun _ => ?_⟩
    unfold Field.layout
    rw [h]
    rfl
  | some element =>
    rw [Field.layout_eq h, Option.map_eq_none_iff, Layout.ofNat?_eq_none_iff]
    refine ⟨fun hlarge => .inr ⟨element, rfl, hlarge⟩, ?_⟩
    rintro (hnone | ⟨element', hsome, hlarge⟩)
    · cases hnone
    · cases hsome; exact hlarge

theorem fieldLayouts_eq_none_iff : ∀ {fs : List Field},
    fieldLayouts t named fs = none ↔ ∃ f ∈ fs, f.layout t named = none
  | [] => by simp [fieldLayouts]
  | f :: fs => by
    rw [fieldLayouts_cons, List.exists_mem_cons_iff, ← fieldLayouts_eq_none_iff]
    cases f.layout t named <;> cases fieldLayouts t named fs <;> simp

theorem Layout.ofStruct_eq_none_iff {ms : List Layout} (h : ∀ m ∈ ms, m.align ≠ 0) :
    ofStruct ms = none ↔ UInt32.size ≤ Extent.structSize (ms.map extent) := by
  rw [ofStruct_eq h, Option.map_eq_none_iff, ofNat?_eq_none_iff]

theorem Layout.ofUnion_eq_none_iff {ms : List Layout} :
    ofUnion ms = none ↔ UInt32.size ≤ Extent.unionSize (ms.map extent) := by
  rw [ofUnion_eq, Option.map_eq_none_iff, ofNat?_eq_none_iff]

theorem Body.ofAggregate_eq_none_iff_oversized {kind : AggregateKind} {ms : List Layout} {b : Body}
    (hkind : b.kind? = some kind) (hknown : fieldLayouts t named b.members = some ms)
    (haligns : ∀ m ∈ ms, m.align ≠ 0) :
    Layout.ofAggregate kind ms = none ↔ b.Oversized t named := by
  -- the members have layouts, so none of them is an array that is too large
  have harray : ¬∃ f ∈ b.members, f.layout t named = none := fun hf => by
    rw [fieldLayouts_eq_none_iff.2 hf] at hknown
    cases hknown
  constructor
  · intro h
    cases kind with
    | struct => exact .struct hkind hknown ((Layout.ofStruct_eq_none_iff haligns).1 h)
    | union => exact .union hkind hknown (Layout.ofUnion_eq_none_iff.1 h)
  · intro h
    cases h with
    | array hf helement hlarge => exact absurd ⟨_, hf, Field.layout_eq_none_iff.2 (.inr ⟨_, helement, hlarge⟩)⟩ harray
    | struct hkind' hknown' hlarge =>
      cases hkind.symm.trans hkind'
      cases hknown.symm.trans hknown'
      exact (Layout.ofStruct_eq_none_iff haligns).2 hlarge
    | union hkind' hknown' hlarge =>
      cases hkind.symm.trans hkind'
      cases hknown.symm.trans hknown'
      exact Layout.ofUnion_eq_none_iff.2 hlarge

/-- **Members have no layout if an element of theirs has none, or if one of them is an array that is too large.** -/
theorem fieldLayouts_eq_none_iff_type {fs : List Field} :
    fieldLayouts t named fs = none ↔ (∃ type ∈ fs.map (·.type), type.layout t named = none) ∨
      ∃ f ∈ fs, ∃ element, f.type.layout t named = some element ∧ UInt32.size ≤ (f.extent element).size := by
  rw [fieldLayouts_eq_none_iff]
  constructor
  · rintro ⟨f, hf, h⟩
    rcases Field.layout_eq_none_iff.1 h with h | h
    · exact .inl ⟨f.type, List.mem_map_of_mem hf, h⟩
    · exact .inr ⟨f, hf, h⟩
  · rintro (⟨type, hmem, h⟩ | ⟨f, hf, h⟩)
    · obtain ⟨f, hf, rfl⟩ := List.mem_map.1 hmem
      exact ⟨f, hf, Field.layout_eq_none_iff.2 (.inl h)⟩
    · exact ⟨f, hf, Field.layout_eq_none_iff.2 (.inr h)⟩

/-- **A body has no layout exactly if a type in it has none or a part of it is too large.** -/
theorem Body.layout_eq_none_iff_type (ht : t.Sound) (hnamed : ∀ n l, named n = some l → l.align ≠ 0) {b : Body} :
    b.layout t named = none ↔ (∃ type ∈ b.types, type.layout t named = none) ∨ b.Oversized t named := by
  rcases b.cases_kind with ⟨type, rfl⟩ | ⟨kind, hkind⟩
  · constructor
    · exact fun h => .inl ⟨type, List.mem_singleton.2 rfl, h⟩
    · rintro (⟨type', hmem, h⟩ | h)
      · rw [List.mem_singleton.1 hmem] at h
        exact h
      · cases h with
        | array hf => cases hf
        | struct hkind => cases hkind
        | union hkind => cases hkind
  · rw [Body.layout_of_kind hkind, Body.types_of_kind hkind]
    cases hknown : fieldLayouts t named b.members with
    | none =>
      refine ⟨fun _ => ?_, fun _ => rfl⟩
      rcases fieldLayouts_eq_none_iff_type.1 hknown with htype | ⟨f, hf, element, helement, hlarge⟩
      · exact .inl htype
      · exact .inr (.array hf helement hlarge)
    | some ms =>
      have hall : ¬∃ type ∈ b.members.map (·.type), type.layout t named = none := fun htype => by
        rw [fieldLayouts_eq_none_iff_type.2 (.inl htype)] at hknown
        cases hknown
      have haligns := align_of_mem_fieldLayouts ht.ne_zero_of_mem_alignments hnamed hknown
      rw [Option.bind_some, Body.ofAggregate_eq_none_iff_oversized hkind hknown haligns]
      exact ⟨.inr, fun h => h.resolve_left hall⟩

/-- **A body has no layout exactly if a type in it is incomplete, a part of it is too large, or a name it holds has
none.** -/
theorem Body.layout_eq_none_iff (ht : t.Sound) (hnamed : ∀ n l, named n = some l → l.align ≠ 0) {b : Body} :
    b.layout t named = none ↔
      (∃ type ∈ b.types, type.Incomplete t) ∨ b.Oversized t named ∨ ∃ n ∈ b.held, named n = none := by
  have htypes : (∃ type ∈ b.types, type.layout t named = none) ↔
      (∃ type ∈ b.types, type.Incomplete t) ∨ ∃ n ∈ b.held, named n = none := by
    constructor
    · rintro ⟨type, hmem, h⟩
      rcases CType.layout_eq_none_iff.1 h with hinc | ⟨n, hn, hnone⟩
      · exact .inl ⟨type, hmem, hinc⟩
      · exact .inr ⟨n, List.mem_filterMap.2 ⟨type, hmem, hn⟩, hnone⟩
    · rintro (⟨type, hmem, hinc⟩ | ⟨n, hn, hnone⟩)
      · exact ⟨type, hmem, CType.layout_eq_none_iff.2 (.inl hinc)⟩
      · obtain ⟨type, hmem, hheld⟩ := List.mem_filterMap.1 hn
        exact ⟨type, hmem, CType.layout_eq_none_iff.2 (.inr ⟨n, hheld, hnone⟩)⟩
  rw [Body.layout_eq_none_iff_type ht hnamed, htypes, or_right_comm, or_assoc]

end

/-! ## Names of a checked table -/

theorem CType.reference?_of_held {type : CType} {n : String} (h : n ∈ type.held?) : n ∈ type.reference? := by
  obtain ⟨base, v, pointers⟩ := type
  cases pointers with
  | cons level levels => cases h
  | nil =>
    cases base with
    | named name => exact h
    | _ => cases h

theorem Body.mem_references_of_held {b : Body} {n : String} (h : n ∈ b.held) : n ∈ b.references := by
  obtain ⟨type, hmem, hheld⟩ := List.mem_filterMap.1 h
  rw [b.references_eq]
  exact List.mem_filterMap.2 ⟨type, hmem, CType.reference?_of_held hheld⟩

namespace Table

variable {t : Table} {d : Dialect}

theorem refers_of_holds {a b : String} (h : t.Holds d a b) : Refers t.entries d a b := by
  obtain ⟨e, he, hheld⟩ := h
  obtain ⟨hmem, hname, hd⟩ := mem_of_lookup_eq_some he
  exact ⟨e, hmem, hname, hd, Body.mem_references_of_held hheld⟩

/-- What a name holds has an entry of its own. -/
theorem lookup_isSome_of_holds (hres : Resolved t.entries) {a b : String} (h : t.Holds d a b) :
    (t.lookup b d).isSome = true := by
  obtain ⟨e, hmem, -, hd, href⟩ := refers_of_holds h
  exact lookup_isSome_iff.2 (hres d e hmem hd b href)

/-- **Induction along what names hold**, which ends because no chain of references comes back. -/
theorem holds_induction (hacyc : Acyclic t.entries) (hres : Resolved t.entries) {P : String → Prop}
    (step : ∀ name, (t.lookup name d).isSome = true → (∀ held, t.Holds d name held → P held) → P name) {name : String}
    (hname : (t.lookup name d).isSome = true) : P name := by
  -- chains of references order the names strictly, and only finitely many names have an entry
  let below : String → String → Prop := fun b a => Relation.TransGen (Refers t.entries d) a b
  have : IsStrictOrder String below :=
    { irrefl := hacyc d
      trans := fun a b c hab hbc => hbc.trans hab }
  have hfinite : {n | (t.lookup n d).isSome = true}.Finite := by
    refine (t.entries.map (·.name)).finite_toSet.subset fun n hn => ?_
    obtain ⟨e, hmem, hen, -⟩ := lookup_isSome_iff.1 hn
    exact List.mem_map.2 ⟨e, hmem, hen⟩
  refine hfinite.wellFoundedOn (r := below) |>.induction hname fun a ha ih => step a ha fun b hab => ?_
  exact ih b (lookup_isSome_of_holds hres hab) (.single (refers_of_holds hab))

/-- **What holds of the target's alignments holds of every name's.** -/
theorem layoutWithin_align {Q : UInt32 → Prop} (hQ : ∀ a ∈ t.target.alignments, Q a) {n : Nat} {name : String}
    {l : Layout} (h : t.layoutWithin d n name = some l) : Q l.align := by
  induction n generalizing name l with
  | zero => cases h
  | succ n ih =>
    obtain ⟨e, -, hl⟩ := Option.bind_eq_some_iff.1 h
    exact Body.align_of_layout hQ (fun _ _ => ih) hl

theorem layoutWithin_align_ne_zero (ht : t.target.Sound) {n : Nat} {name : String} {l : Layout}
    (h : t.layoutWithin d n name = some l) : l.align ≠ 0 :=
  layoutWithin_align (Q := (· ≠ 0)) ht.ne_zero_of_mem_alignments h

/-- A name lacks a layout if a name it holds does. -/
theorem layoutOf_eq_none_of_holds {a b : String} (hab : t.Holds d a b) (h : t.layoutOf d b = none) :
    t.layoutOf d a = none := by
  obtain ⟨e, he, hheld⟩ := hab
  rw [layoutOf_eq, he, Option.bind_some]
  refine Option.eq_none_iff_forall_ne_some.2 fun l hl => ?_
  have hsome : (t.layoutOf d b).isSome = true := Body.isSome_of_held hl hheld
  rw [h] at hsome
  cases hsome

theorem layoutOf_eq_none_of_reaches {a b : String} (hab : Relation.ReflTransGen (t.Holds d) a b)
    (h : t.layoutOf d b = none) : t.layoutOf d a = none := by
  induction hab using Relation.ReflTransGen.head_induction_on with
  | refl => exact h
  | head hstep _ ih => exact layoutOf_eq_none_of_holds hstep ih

/-- **A reason of C to have no layout**: among what the name holds by value, directly or through other names, there is
an incomplete type, or an array, struct or union of known parts that does not fit. -/
def Unsizable (t : Table) (d : Dialect) (name : String) : Prop :=
  ∃ inner e, Relation.ReflTransGen (t.Holds d) name inner ∧ t.lookup inner d = some e ∧
    ((∃ type ∈ e.body.types, type.Incomplete t.target) ∨ e.body.Oversized t.target (t.layoutOf d))

theorem Unsizable.of_holds {a b : String} (hab : t.Holds d a b) : t.Unsizable d b → t.Unsizable d a
  | ⟨inner, e, hreach, he, hcause⟩ => ⟨inner, e, .head hab hreach, he, hcause⟩

/-- **In a checked table a layout is missing for a reason of C, and for no other**; and where there is one, its
alignment is not zero. -/
theorem layoutOf_eq_none_iff_unsizable {target : Target} {guards : GuardScheme} {entries : List Entry} {t : Table}
    (h : ofEntries target guards entries = .ok t) (d : Dialect) {name : String}
    (hname : (t.lookup name d).isSome = true) :
    (t.layoutOf d name = none ↔ t.Unsizable d name) ∧ ∀ l, t.layoutOf d name = some l → 1 ≤ l.align := by
  have hw := wellFormed_of_ofEntries h
  have haligns : ∀ n l, t.layoutOf d n = some l → l.align ≠ 0 := fun n l => layoutWithin_align_ne_zero hw.target
  refine ⟨⟨?_, ?_⟩, fun l hl => ?_⟩
  · -- a missing layout is passed on from a name that is held, until a body has a reason of its own
    refine holds_induction (P := fun n => t.layoutOf d n = none → t.Unsizable d n) hw.acyclic hw.resolved ?_ hname
    intro a ha ih hnone
    obtain ⟨e, he⟩ := Option.isSome_iff_exists.1 ha
    rw [layoutOf_eq, he, Option.bind_some] at hnone
    rcases (Body.layout_eq_none_iff hw.target haligns).1 hnone with hinc | hover | ⟨b, hheld, hmissing⟩
    · exact ⟨a, e, .refl, he, .inl hinc⟩
    · exact ⟨a, e, .refl, he, .inr hover⟩
    · have hstep : t.Holds d a b := ⟨e, he, hheld⟩
      exact (ih b hstep hmissing).of_holds hstep
  · rintro ⟨inner, e, hreach, he, hcause⟩
    refine layoutOf_eq_none_of_reaches hreach ?_
    rw [layoutOf_eq, he, Option.bind_some]
    exact (Body.layout_eq_none_iff hw.target haligns).2 (hcause.imp id .inl)
  · exact UInt32.le_iff_toNat_le.2 (Layout.one_le_toNat_iff.2 (haligns name l hl))

/-- A page of 2³² bytes, in two halves that fit, and a book that holds a page. -/
def bookEntries : List Entry :=
  let half (name : String) : Field := { name, type := .scalar (.plain .char), length := some (.count 2147483648) }
  [{ name := "page", body := .record { fields := [half "low", half "high"] } },
    { name := "book", body := .record { fields := [{ name := "first", type := ⟨.named "page", false, []⟩ }] } }]

theorem layoutOf_eq_none_iff_unsizable_book :
    ofEntries (.ofModel "" .lp64) {} bookEntries = .ok ⟨.ofModel "" .lp64, {}, bookEntries⟩ ∧
    (lookup ⟨.ofModel "" .lp64, {}, bookEntries⟩ "book" .c).isSome = true ∧
    layoutOf ⟨.ofModel "" .lp64, {}, bookEntries⟩ .c "book" = none ∧
    Unsizable ⟨.ofModel "" .lp64, {}, bookEntries⟩ .c "book" := by
  have hok : ofEntries (.ofModel "" .lp64) {} bookEntries = .ok ⟨.ofModel "" .lp64, {}, bookEntries⟩ := by
    decide +kernel
  have hname : (lookup ⟨.ofModel "" .lp64, {}, bookEntries⟩ "book" .c).isSome = true := by decide
  have hnone : layoutOf ⟨.ofModel "" .lp64, {}, bookEntries⟩ .c "book" = none := by decide
  exact ⟨hok, hname, hnone, (layoutOf_eq_none_iff_unsizable hok .c hname).1.1 hnone⟩

end Table
end CAbi
