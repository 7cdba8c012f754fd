import CAbi.Proofs.MemberAlignment
/-!
# ZeroSize — types without a byte

The checks of a table forbid what has no size: widths of zero, empty compiler types, records without fields, arrays of
no elements or no bytes.  A byte length hides one more case.  How many elements it comes to depends on their size, and
with fewer bytes than one element takes it comes to none (`Field.CutShort`).

Such an array alone does no harm, as its neighbours still have a size.  A record of nothing else has none
(`Record.Hollow`), and this is where every zero in a checked table comes from: the types that a name holds end in
scalars, pointers and compiler types, all of which have a size, so on the way from them to a zero some record has lost
all of its fields.
-/
namespace CAbi

/-- **An array cut short**: it has fewer bytes than one element takes, and so no elements. -/
def Field.CutShort (f : Field) (elementSize : UInt32) : Prop :=
  ∃ n, f.length = some (.bytes n) ∧ n < elementSize

/-- **A record of which nothing is left**: every field is an array cut short. -/
def Record.Hollow (r : Record) (t : Target) (named : String → Option Layout) : Prop :=
  ∀ f ∈ r.fields, ∃ element, f.type.layout t named = some element ∧ f.CutShort element.size

/-! ## Aggregates -/

namespace Extent

theorem packedEnd_eq_zero : ∀ {ms : List Extent}, (∀ m ∈ ms, 1 ≤ m.align) → (∀ m ∈ ms, m.size = 0) →
    packedEnd 0 ms = 0
  | [], _, _ => rfl
  | m :: ms, halign, hsize => by
    have hstart : Layout.roundUp 0 m.align + m.size = 0 := by
      rw [Layout.roundUp_of_dvd (halign m List.mem_cons_self) (Nat.dvd_zero _), hsize m List.mem_cons_self]
    rw [packedEnd, hstart]
    exact packedEnd_eq_zero (fun x hx => halign x (List.mem_cons_of_mem _ hx))
      fun x hx => hsize x (List.mem_cons_of_mem _ hx)

/-- **An aggregate has no size exactly if none of its members has one.** -/
theorem aggregateSize_eq_zero_iff (kind : AggregateKind) {ms : List Extent} (h : ∀ m ∈ ms, 1 ≤ m.align) :
    aggregateSize kind ms = 0 ↔ ∀ m ∈ ms, m.size = 0 := by
  constructor
  · intro hzero m hm
    exact Nat.le_zero.1 (hzero ▸ size_le_aggregateSize kind h hm)
  · intro hsizes
    have hend : ∀ n, n = 0 → Layout.roundUp n (largestAlign ms) = 0 := fun n hn => by
      rw [hn, Layout.roundUp_of_dvd (one_le_largestAlign ms) (Nat.dvd_zero _)]
    cases kind with
    | struct => exact hend _ (packedEnd_eq_zero h hsizes)
    | union => exact hend _ (Nat.le_zero.1 (largestSize_le fun m hm => Nat.le_of_eq (hsizes m hm)))

end Extent

/-! ## Members -/

theorem Body.WellShaped.length_ne_zero {b : Body} (h : b.WellShaped) {f : Field} (hf : f ∈ b.members) :
    f.length ≠ some (.count 0) ∧ f.length ≠ some (.bytes 0) := by
  cases b with
  | synonym type => cases hf
  | record r => exact h.2.2 f hf
  | opaqueHandle views =>
    obtain ⟨n, hn, hlength⟩ := h.2 f hf
    rw [hlength]
    refine ⟨fun heq => ?_, fun heq => by cases heq⟩
    cases heq
    exact absurd hn (by decide)

theorem Field.elementCount_eq_zero_iff {f : Field} (h : f.length ≠ some (.count 0) ∧ f.length ≠ some (.bytes 0))
    (elementSize : UInt32) : f.elementCount elementSize = 0 ↔ f.CutShort elementSize := by
  obtain ⟨name, type, length⟩ := f
  match length with
  | none => exact iff_of_false (by decide : (1 : UInt32) ≠ 0) fun ⟨_, heq, _⟩ => by cases heq
  | some (.count n) => exact iff_of_false (fun hn : n = 0 => h.1 (hn ▸ rfl)) fun ⟨_, heq, _⟩ => by cases heq
  | some (.bytes n) =>
    have hn : n.toNat ≠ 0 := fun hzero => h.2 ((UInt32.toNat_inj.1 hzero : n = 0) ▸ rfl)
    have hcut : Field.CutShort ⟨name, type, some (.bytes n)⟩ elementSize ↔ n.toNat < elementSize.toNat := by
      unfold Field.CutShort
      simp only [Option.some.injEq, ArrayLength.bytes.injEq, exists_eq_left', UInt32.lt_iff_toNat_lt]
    rw [hcut, ← UInt32.toNat_inj, Field.toNat_elementCount]
    show n.toNat / max 1 elementSize.toNat = 0 ↔ _
    rw [Nat.div_eq_zero_iff]
    omega

theorem Field.extent_size_eq_zero_iff (f : Field) (element : Layout) :
    (f.extent element).size = 0 ↔ element.size = 0 ∨ f.elementCount element.size = 0 := by
  rw [← UInt32.toNat_inj, ← UInt32.toNat_inj, Field.toNat_elementCount]
  exact Nat.mul_eq_zero

/-! ## Bodies -/

section

variable {t : Target} {named : String → Option Layout}

theorem CType.size_ne_zero (ht : t.Sound) {type : CType} (hheld : ∀ n ∈ type.held?, ∀ l, named n = some l → l.size ≠ 0)
    {l : Layout} (h : type.layout t named = some l) : l.size ≠ 0 :=
  CType.forall_of_layout (P := fun l => l.size ≠ 0) ht.pointer ht.sizes (fun b hb => (ht.builtins b hb).1) hheld h

/-- **A body of sizable types has a size, unless it is a record of which nothing is left.** -/
theorem Body.size_ne_zero (ht : t.Sound) (hnamed : ∀ n l, named n = some l → l.align ≠ 0) {b : Body}
    (hshape : b.WellShaped) (hfull : ∀ r, b = .record r → ¬r.Hollow t named)
    (hheld : ∀ n ∈ b.held, ∀ l, named n = some l → l.size ≠ 0) {l : Layout} (hl : b.layout t named = some l) :
    l.size ≠ 0 := by
  have htypes : ∀ type ∈ b.types, ∀ element, type.layout t named = some element → element.size ≠ 0 :=
    fun type htype element => CType.size_ne_zero ht fun n hn => hheld n (List.mem_filterMap.2 ⟨type, htype, hn⟩)
  rcases b.cases_kind with ⟨type, rfl⟩ | ⟨kind, hkind⟩
  · exact htypes type (List.mem_singleton.2 rfl) l hl
  · intro hzero
    obtain ⟨elements, helements, haligns, hextent⟩ := Body.extent_of_layout ht hnamed hkind hl
    have hsize : Extent.aggregateSize kind (extents b.members elements) = 0 :=
      (congrArg Extent.size hextent).symm.trans (UInt32.toNat_inj.2 hzero)
    have hnone := (Extent.aggregateSize_eq_zero_iff kind fun m hm => one_le_align_of_mem_extents haligns hm).1 hsize
    -- an element has a size, so what is missing is the elements
    have hcut : ∀ f ∈ b.members, ∃ element, f.type.layout t named = some element ∧ f.CutShort element.size := by
      intro f hf
      obtain ⟨element, helement⟩ := Body.exists_element_of_layout hkind hl f hf
      have hf' := hnone (f.extent element) ((mem_extents_iff helements).2 ⟨f, hf, element, helement, rfl⟩)
      have hcount := ((f.extent_size_eq_zero_iff element).1 hf').resolve_left
        (htypes f.type (Body.types_of_kind hkind ▸ List.mem_map_of_mem hf) element helement)
      exact ⟨element, helement, (Field.elementCount_eq_zero_iff (hshape.length_ne_zero hf) _).1 hcount⟩
    cases b with
    | synonym type => cases hkind
    | record r => exact hfull r rfl hcut
    | opaqueHandle views =>
      obtain ⟨v, hv⟩ := List.exists_mem_of_ne_nil views hshape.1
      obtain ⟨n, -, hlength⟩ := hshape.2 v hv
      obtain ⟨_, -, _, hbytes, -⟩ := hcut v hv
      cases hlength.symm.trans hbytes

theorem Record.Hollow.exists_layout (ht : t.Sound) (hnamed : ∀ n l, named n = some l → l.align ≠ 0) {r : Record}
    (hshape : (Body.record r).WellShaped) (h : r.Hollow t named) :
    ∃ l, (Body.record r).layout t named = some l ∧ l.size = 0 := by
  obtain ⟨elements, helements⟩ := exists_elements fun f hf => (h f hf).imp fun _ => And.left
  have haligns := one_le_align_of_elements ht hnamed helements
  have hnone : ∀ m ∈ extents r.fields elements, m.size = 0 := by
    intro m hm
    obtain ⟨f, hf, element, helement, rfl⟩ := (mem_extents_iff helements).1 hm
    obtain ⟨element', helement', hcut⟩ := h f hf
    rw [helement] at helement'
    cases helement'
    have hcount := (Field.elementCount_eq_zero_iff (hshape.length_ne_zero (f := f) hf) _).2 hcut
    exact (f.extent_size_eq_zero_iff element).2 (.inr hcount)
  have hsize : Extent.aggregateSize r.kind (extents r.fields elements) = 0 :=
    (Extent.aggregateSize_eq_zero_iff r.kind fun m hm => one_le_align_of_mem_extents haligns hm).2 hnone
  obtain ⟨l, hl, hextent⟩ := (aggregate_of_elements r.kind helements haligns).1 (hsize ▸ by decide)
  exact ⟨l, hl, UInt32.toNat_inj.1 ((congrArg Extent.size hextent).trans hsize)⟩

end

namespace Table

variable {t : Table} {d : Dialect}

theorem exists_layoutOf_of_hollow (hw : WellFormed t.target t.guards t.entries) {e : Entry} (he : e ∈ t.entries)
    (hd : e.scope.admits d = true) {r : Record} (hr : e.body = .record r) (h : r.Hollow t.target (t.layoutOf d)) :
    ∃ l, t.layoutOf d e.name = some l ∧ l.size = 0 := by
  have hshape : (Body.record r).WellShaped := hr ▸ hw.bodies e he
  obtain ⟨l, hl, hzero⟩ := h.exists_layout hw.target (fun _ _ => layoutWithin_align_ne_zero hw.target) hshape
  refine ⟨l, ?_, hzero⟩
  rw [layoutOf_eq, (lookup_eq_some_iff hw.unambiguous).2 ⟨he, rfl, hd⟩, Option.bind_some, hr]
  exact hl

theorem size_ne_zero_of_not_hollow (hw : WellFormed t.target t.guards t.entries)
    (hfull : ∀ e ∈ t.entries, e.scope.admits d = true → ∀ r, e.body = .record r → ¬r.Hollow t.target (t.layoutOf d))
    {name : String} (hname : (t.lookup name d).isSome = true) : ∀ l, t.layoutOf d name = some l → l.size ≠ 0 := by
  refine holds_induction (P := fun n => ∀ l, t.layoutOf d n = some l → l.size ≠ 0) hw.acyclic hw.resolved ?_ hname
  -- along what names hold: a size comes from a scalar, a pointer, a compiler type or a name that is held
  intro a ha ih l hl
  obtain ⟨e, he⟩ := Option.isSome_iff_exists.1 ha
  obtain ⟨hmem, -, hd⟩ := mem_of_lookup_eq_some he
  rw [layoutOf_eq, he, Option.bind_some] at hl
  exact Body.size_ne_zero hw.target (fun _ _ => layoutWithin_align_ne_zero hw.target) (hw.bodies e hmem)
    (hfull e hmem hd) (fun n hn => ih n ⟨e, he, hn⟩) hl

/-- **Where a zero comes from.**  In a checked table every type has a size, exactly if no record of it consists of
nothing but arrays cut short; and a field has no elements exactly if it is cut short. -/
theorem sizes_positive_iff_not_hollow {target : Target} {guards : GuardScheme} {entries : List Entry} {t : Table}
    (h : ofEntries target guards entries = .ok t) (d : Dialect) :
    ((∀ name l, t.layoutOf d name = some l → 1 ≤ l.size) ↔
      ∀ e ∈ t.entries, e.scope.admits d = true → ∀ r, e.body = .record r → ¬r.Hollow t.target (t.layoutOf d)) ∧
    ∀ e ∈ t.entries, ∀ f ∈ e.body.members, ∀ element, f.type.layout t.target (t.layoutOf d) = some element →
      (f.elementCount element.size = 0 ↔ f.CutShort element.size) := by
  have hw := wellFormed_of_ofEntries h
  refine ⟨⟨fun hpos e he hd r hr hhollow => ?_, fun hfull name l hl => ?_⟩, fun e he f hf element _ => ?_⟩
  · obtain ⟨l, hl, hzero⟩ := exists_layoutOf_of_hollow hw he hd hr hhollow
    exact absurd (hzero ▸ hpos e.name l hl) (by decide)
  · have hname : (t.lookup name d).isSome = true := by
      rw [layoutOf_eq] at hl
      obtain ⟨e, he, -⟩ := Option.bind_eq_some_iff.1 hl
      exact Option.isSome_iff_exists.2 ⟨e, he⟩
    have hsize := size_ne_zero_of_not_hollow hw hfull hname l hl
    exact UInt32.le_iff_toNat_le.2 (Layout.one_le_toNat_iff.2 hsize)
  · exact Field.elementCount_eq_zero_iff ((hw.bodies e he).length_ne_zero hf) _

/-- As many `unsigned long` as fit into a number of bytes. -/
def maskEntry (bytes : UInt32) : Entry :=
  { name := "mask_t"
    body := .record
      { fields := [{ name := "bits", type := .scalar (.unsigned .long), length := some (.bytes bytes) }] } }

theorem sizes_positive_iff_not_hollow_mask :
    ofEntries (.ofModel "" .lp64) {} [maskEntry 12] = .ok ⟨.ofModel "" .lp64, {}, [maskEntry 12]⟩ ∧
    layoutOf ⟨.ofModel "" .lp64, {}, [maskEntry 12]⟩ .c "mask_t" = some ⟨8, 8⟩ ∧
    ∀ name l, layoutOf ⟨.ofModel "" .lp64, {}, [maskEntry 12]⟩ .c name = some l → 1 ≤ l.size := by
  have hok : ofEntries (.ofModel "" .lp64) {} [maskEntry 12] = .ok ⟨.ofModel "" .lp64, {}, [maskEntry 12]⟩ := by
    decide +kernel
  refine ⟨hok, by decide +kernel, (sizes_positive_iff_not_hollow hok .c).1.2 fun e he _ r hr hhollow => ?_⟩
  cases List.mem_singleton.1 he
  cases hr
  -- the one field has an element of eight bytes, and twelve bytes for it
  obtain ⟨element, helement, n, hlength, hcut⟩ := hhollow _ List.mem_cons_self
  cases helement
  cases hlength
  exact absurd hcut (by decide)

/-- **A checked table can have a type without a byte**: four bytes hold no `unsigned long` of eight. -/
theorem mask_of_no_elements :
    ofEntries (.ofModel "" .lp64) {} [maskEntry 4] = .ok ⟨.ofModel "" .lp64, {}, [maskEntry 4]⟩ ∧
    layoutOf ⟨.ofModel "" .lp64, {}, [maskEntry 4]⟩ .c "mask_t" = some ⟨0, 8⟩ ∧
    ∃ f ∈ (maskEntry 4).body.members, ∃ element,
      f.type.layout (.ofModel "" .lp64) (layoutOf ⟨.ofModel "" .lp64, {}, [maskEntry 4]⟩ .c) = some element ∧
        f.elementCount element.size = 0 :=
  ⟨by decide +kernel, by decide +kernel, _, List.mem_cons_self, ⟨8, 8⟩, by decide +kernel, by decide⟩

end Table
end CAbi
