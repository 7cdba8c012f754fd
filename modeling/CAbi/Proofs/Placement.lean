import Mathlib.Order.Bounds.Basic
import CAbi.Proofs.HeldByValue
/-!
# Placement — the smallest record that holds its members

Where the members of a struct may lie is said here over the natural numbers, without a limit: at multiples of their
alignments, one after the other (`Placement`).  Many placements obey this, and some waste space.  `packedEnd` puts every
member as early as it can, and no placement ends before it (`packedEnd_le`), so the end of it, rounded up, is the size
of the smallest struct (`structSize_isLeast`).

The computation in 32-bit words asks after each of its steps whether the number still fits.  As no step makes it
smaller, all these questions together are one question about the size at the end (`ofStruct_eq`, `ofUnion_eq`).
-/
namespace CAbi

/-- **The room a member takes**: its exact size, and what its offset has to be a multiple of. -/
structure Extent where
  size : Nat
  align : Nat
  deriving DecidableEq, Repr

/-- **Offsets at which the members may lie**, from `start` on: each is a multiple of the member's alignment and not
before the end of the member in front of it, and the last member ends by `stop`. -/
inductive Placement (stop : Nat) : Nat → List Extent → List Nat → Prop
  | done {start : Nat} (ends : start ≤ stop) : Placement stop start [] []
  | place {start offset : Nat} {m : Extent} {ms : List Extent} {offsets : List Nat} (aligned : m.align ∣ offset)
      (after : start ≤ offset) (rest : Placement stop (offset + m.size) ms offsets) :
      Placement stop start (m :: ms) (offset :: offsets)

namespace Extent

/-- The end of the last member when each is placed as early as it can be. -/
def packedEnd (start : Nat) : List Extent → Nat
  | [] => start
  | m :: ms => packedEnd (Layout.roundUp start m.align + m.size) ms

/-- The largest alignment, at least one. -/
def largestAlign : List Extent → Nat
  | [] => 1
  | m :: ms => max m.align (largestAlign ms)

def largestSize : List Extent → Nat
  | [] => 0
  | m :: ms => max m.size (largestSize ms)

/-- **The exact size of a struct.** -/
def structSize (ms : List Extent) : Nat := Layout.roundUp (packedEnd 0 ms) (largestAlign ms)

/-- **The exact size of a union.** -/
def unionSize (ms : List Extent) : Nat := Layout.roundUp (largestSize ms) (largestAlign ms)

def aggregateSize : AggregateKind → List Extent → Nat
  | .struct => structSize
  | .union => unionSize

end Extent

/-! ## Rounding up -/

namespace Layout

theorem dvd_roundUp (n a : Nat) : a ∣ roundUp n a := Nat.dvd_mul_left a _

theorem le_roundUp (n : Nat) {a : Nat} (ha : 0 < a) : n ≤ roundUp n a := by
  unfold roundUp
  have hdiv := Nat.div_add_mod (n + a - 1) a
  have hmod := Nat.mod_lt (n + a - 1) ha
  rw [Nat.mul_comm] at hdiv
  omega

/-- **Rounding up gives the least multiple.** -/
theorem roundUp_le {n a q : Nat} (ha : 0 < a) (hn : n ≤ q) (hq : a ∣ q) : roundUp n a ≤ q := by
  obtain ⟨k, rfl⟩ := hq
  unfold roundUp
  rw [Nat.mul_comm a k]
  refine Nat.mul_le_mul_right a (Nat.lt_succ_iff.1 ((Nat.div_lt_iff_lt_mul ha).2 ?_))
  rw [Nat.succ_mul, Nat.mul_comm k a]
  omega

theorem roundUp_mono {n m a : Nat} (ha : 0 < a) (h : n ≤ m) : roundUp n a ≤ roundUp m a :=
  roundUp_le ha (h.trans (le_roundUp m ha)) (dvd_roundUp m a)

theorem roundUp_of_dvd {n a : Nat} (ha : 0 < a) (h : a ∣ n) : roundUp n a = n :=
  Nat.le_antisymm (roundUp_le ha (Nat.le_refl n) h) (le_roundUp n ha)

end Layout

/-! ## The earliest placement -/

namespace Extent

open Layout (roundUp le_roundUp roundUp_le roundUp_mono dvd_roundUp)

theorem one_le_largestAlign : ∀ ms : List Extent, 1 ≤ largestAlign ms
  | [] => Nat.le_refl 1
  | _ :: ms => (one_le_largestAlign ms).trans (Nat.le_max_right _ _)

theorem packedEnd_mono : ∀ {ms : List Extent}, (∀ m ∈ ms, 1 ≤ m.align) → ∀ {a b : Nat}, a ≤ b →
    packedEnd a ms ≤ packedEnd b ms
  | [], _, _, _, hab => hab
  | m :: _, h, _, _, hab => by
    have hround := roundUp_mono (h m List.mem_cons_self) hab
    exact packedEnd_mono (fun x hx => h x (List.mem_cons_of_mem _ hx)) (Nat.add_le_add_right hround m.size)

theorem le_packedEnd : ∀ {ms : List Extent}, (∀ m ∈ ms, 1 ≤ m.align) → ∀ start : Nat, start ≤ packedEnd start ms
  | [], _, start => Nat.le_refl start
  | m :: ms, h, start => by
    have hround := le_roundUp start (h m List.mem_cons_self)
    have hrest := le_packedEnd (fun x hx => h x (List.mem_cons_of_mem _ hx)) (roundUp start m.align + m.size)
    simp only [packedEnd]
    omega

theorem size_le_packedEnd : ∀ {ms : List Extent}, (∀ m ∈ ms, 1 ≤ m.align) → ∀ (start : Nat) {m : Extent}, m ∈ ms →
    m.size ≤ packedEnd start ms
  | x :: ms, h, start, m, hm => by
    have htail : ∀ y ∈ ms, 1 ≤ y.align := fun y hy => h y (List.mem_cons_of_mem _ hy)
    rcases List.mem_cons.1 hm with rfl | hm
    · have hrest := le_packedEnd htail (roundUp start m.align + m.size)
      simp only [packedEnd]
      omega
    · exact size_le_packedEnd htail _ hm

/-- **The earliest placement is a placement.** -/
theorem exists_placement : ∀ {ms : List Extent}, (∀ m ∈ ms, 1 ≤ m.align) → ∀ {start stop : Nat},
    packedEnd start ms ≤ stop → ∃ offsets, Placement stop start ms offsets
  | [], _, _, _, hstop => ⟨[], .done hstop⟩
  | m :: _, h, start, _, hstop => by
    obtain ⟨offsets, hrest⟩ := exists_placement (fun x hx => h x (List.mem_cons_of_mem _ hx)) hstop
    exact ⟨roundUp start m.align :: offsets,
      .place (dvd_roundUp _ _) (le_roundUp start (h m List.mem_cons_self)) hrest⟩

/-- **No placement ends before the earliest one.** -/
theorem packedEnd_le {ms : List Extent} {start stop : Nat} {offsets : List Nat} (h : ∀ m ∈ ms, 1 ≤ m.align)
    (hp : Placement stop start ms offsets) : packedEnd start ms ≤ stop := by
  induction hp with
  | done ends => exact ends
  | @place start offset m ms offsets aligned after _ ih =>
    have htail : ∀ x ∈ ms, 1 ≤ x.align := fun x hx => h x (List.mem_cons_of_mem _ hx)
    have hoffset : roundUp start m.align ≤ offset := roundUp_le (h m List.mem_cons_self) after aligned
    calc packedEnd start (m :: ms)
      _ = packedEnd (roundUp start m.align + m.size) ms := rfl
      _ ≤ packedEnd (offset + m.size) ms := packedEnd_mono htail (Nat.add_le_add_right hoffset m.size)
      _ ≤ stop := ih htail

/-- **The size of a struct is the least multiple of its alignment by which some placement of its members ends.** -/
theorem structSize_isLeast {ms : List Extent} (h : ∀ m ∈ ms, 1 ≤ m.align) :
    IsLeast {n | largestAlign ms ∣ n ∧ ∃ offsets, Placement n 0 ms offsets} (structSize ms) := by
  have halign := one_le_largestAlign ms
  refine ⟨⟨dvd_roundUp _ _, exists_placement h (le_roundUp _ halign)⟩, ?_⟩
  rintro n ⟨hdvd, offsets, hp⟩
  exact roundUp_le halign (packedEnd_le h hp) hdvd

theorem size_le_largestSize : ∀ {ms : List Extent} {m : Extent}, m ∈ ms → m.size ≤ largestSize ms
  | _ :: _, _, hm => by
    rcases List.mem_cons.1 hm with rfl | hm
    · exact Nat.le_max_left _ _
    · exact (size_le_largestSize hm).trans (Nat.le_max_right _ _)

theorem largestSize_le {n : Nat} : ∀ {ms : List Extent}, (∀ m ∈ ms, m.size ≤ n) → largestSize ms ≤ n
  | [], _ => Nat.zero_le n
  | m :: _, h => Nat.max_le.2 ⟨h m List.mem_cons_self, largestSize_le fun x hx => h x (List.mem_cons_of_mem _ hx)⟩

/-- **An aggregate has room for each of its members.** -/
theorem size_le_aggregateSize (kind : AggregateKind) {ms : List Extent} (h : ∀ m ∈ ms, 1 ≤ m.align) {m : Extent}
    (hm : m ∈ ms) : m.size ≤ aggregateSize kind ms := by
  have halign := one_le_largestAlign ms
  cases kind with
  | struct => exact (size_le_packedEnd h 0 hm).trans (le_roundUp _ halign)
  | union => exact (size_le_largestSize hm).trans (le_roundUp _ halign)

end Extent

/-! ## Words against numbers -/

namespace Layout

open Extent (packedEnd le_packedEnd)

/-- The room a layout takes. -/
def extent (l : Layout) : Extent := ⟨l.size.toNat, l.align.toNat⟩

theorem ofNat?_eq_none_iff {n : Nat} : ofNat? n = none ↔ UInt32.size ≤ n := by
  unfold ofNat?
  split <;> simp <;> omega

theorem ofNat?_toNat (w : UInt32) : ofNat? w.toNat = some w := ofNat?_eq_some_iff.2 rfl

theorem one_le_toNat_iff {w : UInt32} : 1 ≤ w.toNat ↔ w ≠ 0 := by
  rw [Nat.one_le_iff_ne_zero, ne_eq, ne_eq, ← UInt32.toNat_inj]
  rfl

theorem roundUp?_of_ne_zero (size : UInt32) {align : UInt32} (h : align ≠ 0) :
    roundUp? size align = ofNat? (roundUp size.toNat align.toNat) := if_neg h

/-- **Placing in words fails exactly if the end does not fit**: what overflows on the way is at most the end. -/
theorem placeAll_eq : ∀ (ms : List Layout) (start : UInt32), (∀ m ∈ ms, m.align ≠ 0) →
    placeAll start ms = ofNat? (packedEnd start.toNat (ms.map extent))
  | [], start, _ => (ofNat?_toNat start).symm
  | m :: ms, start, h => by
    have hms : ∀ x ∈ ms, x.align ≠ 0 := fun x hx => h x (List.mem_cons_of_mem _ hx)
    have htail : ∀ x ∈ ms.map extent, 1 ≤ x.align := by
      intro x hx
      obtain ⟨l, hl, rfl⟩ := List.mem_map.1 hx
      exact one_le_toNat_iff.2 (hms l hl)
    have hend : packedEnd start.toNat ((m :: ms).map extent) =
        packedEnd (roundUp start.toNat m.align.toNat + m.size.toNat) (ms.map extent) := rfl
    have hle := le_packedEnd htail (roundUp start.toNat m.align.toNat + m.size.toNat)
    rw [placeAll, roundUp?_of_ne_zero start (h m List.mem_cons_self), hend]
    -- an overflow at either of the two steps is one of the end, which only grows from there
    cases hfirst : ofNat? (roundUp start.toNat m.align.toNat) with
    | none =>
      have hbig := ofNat?_eq_none_iff.1 hfirst
      exact (ofNat?_eq_none_iff.2 (by omega)).symm
    | some offset =>
      have hoffset := ofNat?_eq_some_iff.1 hfirst
      rw [← hoffset] at hle ⊢
      show (ofNat? (offset.toNat + m.size.toNat)).bind (fun stop => placeAll stop ms) = _
      cases hsecond : ofNat? (offset.toNat + m.size.toNat) with
      | none =>
        have hbig := ofNat?_eq_none_iff.1 hsecond
        exact (ofNat?_eq_none_iff.2 (by omega)).symm
      | some stop =>
        rw [← ofNat?_eq_some_iff.1 hsecond]
        exact placeAll_eq ms stop hms

theorem toNat_foldl_align : ∀ (ms : List Layout) {a : UInt32}, 1 ≤ a.toNat →
    (ms.foldl (fun a m => max a m.align) a).toNat = max a.toNat (Extent.largestAlign (ms.map extent))
  | [], a, ha => (Nat.max_eq_left ha).symm
  | m :: ms, a, ha => by
    have hstep : 1 ≤ (max a m.align).toNat := by rw [UInt32.toNat_max]; omega
    rw [List.foldl_cons, toNat_foldl_align ms hstep, UInt32.toNat_max, Nat.max_assoc]
    rfl

theorem toNat_largestAlign (ms : List Layout) :
    (largestAlign ms).toNat = Extent.largestAlign (ms.map extent) := by
  have hone := Extent.one_le_largestAlign (ms.map extent)
  have hfold : (largestAlign ms).toNat = max 1 (Extent.largestAlign (ms.map extent)) :=
    toNat_foldl_align ms (a := 1) (Nat.le_refl 1)
  omega

theorem largestAlign_ne_zero (ms : List Layout) : largestAlign ms ≠ 0 := by
  rw [← one_le_toNat_iff, toNat_largestAlign]
  exact Extent.one_le_largestAlign _

theorem toNat_foldl_size : ∀ (ms : List Layout) (s : UInt32),
    (ms.foldl (fun s m => max s m.size) s).toNat = max s.toNat (Extent.largestSize (ms.map extent))
  | [], s => (Nat.max_eq_left (Nat.zero_le _)).symm
  | m :: ms, s => by
    rw [List.foldl_cons, toNat_foldl_size ms (max s m.size), UInt32.toNat_max, Nat.max_assoc]
    rfl

theorem toNat_largestSize (ms : List Layout) : (largestSize ms).toNat = Extent.largestSize (ms.map extent) := by
  have hfold : (largestSize ms).toNat = max 0 (Extent.largestSize (ms.map extent)) := toNat_foldl_size ms 0
  omega

/-- **A struct in words is the exact struct, if its size fits.** -/
theorem ofStruct_eq {ms : List Layout} (h : ∀ m ∈ ms, m.align ≠ 0) :
    ofStruct ms = (ofNat? (Extent.structSize (ms.map extent))).map fun size => ⟨size, largestAlign ms⟩ := by
  have halign := Extent.one_le_largestAlign (ms.map extent)
  have hround := le_roundUp (packedEnd 0 (ms.map extent)) halign
  unfold ofStruct Extent.structSize
  rw [placeAll_eq ms 0 h]
  show (ofNat? (packedEnd 0 (ms.map extent))).bind _ = _
  cases hstop : ofNat? (packedEnd 0 (ms.map extent)) with
  | none =>
    have hbig := ofNat?_eq_none_iff.1 hstop
    rw [ofNat?_eq_none_iff.2 (hbig.trans hround)]
    rfl
  | some stop =>
    rw [Option.bind_some, roundUp?_of_ne_zero stop (largestAlign_ne_zero ms), toNat_largestAlign,
      ofNat?_eq_some_iff.1 hstop]
    cases ofNat? (roundUp (packedEnd 0 (ms.map extent)) (Extent.largestAlign (ms.map extent))) <;> rfl

/-- **A union in words is the exact union, if its size fits**, whatever its members' alignments. -/
theorem ofUnion_eq (ms : List Layout) :
    ofUnion ms = (ofNat? (Extent.unionSize (ms.map extent))).map fun size => ⟨size, largestAlign ms⟩ := by
  unfold ofUnion Extent.unionSize
  rw [roundUp?_of_ne_zero _ (largestAlign_ne_zero ms), toNat_largestAlign, toNat_largestSize]
  cases ofNat? (roundUp (Extent.largestSize (ms.map extent)) (Extent.largestAlign (ms.map extent))) <;> rfl

theorem ofAggregate_eq (kind : AggregateKind) {ms : List Layout} (h : ∀ m ∈ ms, m.align ≠ 0) :
    ofAggregate kind ms =
      (ofNat? (Extent.aggregateSize kind (ms.map extent))).map fun size => ⟨size, largestAlign ms⟩ := by
  cases kind with
  | struct => exact ofStruct_eq h
  | union => exact ofUnion_eq ms

end Layout

/-! ## Members -/

namespace Field

/-- **How many elements a field has**, given the exact size of one. -/
def count (f : Field) (elementSize : Nat) : Nat :=
  match f.length with
  | none => 1
  | some (.count n) => n.toNat
  | some (.bytes n) => n.toNat / max 1 elementSize

/-- **The room a field takes**, given the layout of an element. -/
def extent (f : Field) (element : Layout) : Extent :=
  ⟨element.size.toNat * f.count element.size.toNat, element.align.toNat⟩

theorem toNat_elementCount (f : Field) (elementSize : UInt32) :
    (f.elementCount elementSize).toNat = f.count elementSize.toNat := by
  obtain ⟨name, type, length⟩ := f
  match length with
  | none => rfl
  | some (.count n) => rfl
  | some (.bytes n) =>
    show (n / max elementSize 1).toNat = n.toNat / max 1 elementSize.toNat
    rw [UInt32.toNat_div, UInt32.toNat_max, Nat.max_comm]
    rfl

variable {t : Target} {named : String → Option Layout}

theorem layout_eq {f : Field} {element : Layout} (h : f.type.layout t named = some element) :
    f.layout t named = (Layout.ofNat? (f.extent element).size).map fun size => ⟨size, element.align⟩ := by
  have hsize : Layout.mul? element.size (f.elementCount element.size) = Layout.ofNat? (f.extent element).size := by
    unfold Layout.mul? extent
    rw [toNat_elementCount]
  unfold layout
  rw [h]
  show (Layout.mul? element.size (f.elementCount element.size)).bind _ = _
  rw [hsize]
  cases Layout.ofNat? (f.extent element).size <;> rfl

end Field

/-- The room that fields take, given the layouts of their elements. -/
def extents (fs : List Field) (elements : List Layout) : List Extent := List.zipWith Field.extent fs elements

theorem one_le_align_of_mem_extents {fs : List Field} {elements : List Layout}
    (h : ∀ element ∈ elements, 1 ≤ element.align) {m : Extent} (hm : m ∈ extents fs elements) : 1 ≤ m.align := by
  unfold extents at hm
  obtain ⟨i, hi, rfl⟩ := List.mem_iff_getElem.1 hm
  rw [List.getElem_zipWith]
  exact UInt32.le_iff_toNat_le.1 (h _ (List.getElem_mem _))

section

variable {t : Target} {named : String → Option Layout}

theorem mem_extents_iff {fs : List Field} {elements : List Layout} {m : Extent}
    (h : List.Forall₂ (fun f element => f.type.layout t named = some element) fs elements) :
    m ∈ extents fs elements ↔ ∃ f ∈ fs, ∃ element, f.type.layout t named = some element ∧ m = f.extent element := by
  induction h with
  | nil => simp [extents]
  | @cons f element fs elements hf _ ih =>
    have hhead : (∃ e, f.type.layout t named = some e ∧ m = f.extent e) ↔ m = f.extent element := by
      simp only [hf, Option.some.injEq, exists_eq_left']
    rw [List.exists_mem_cons_iff, hhead, ← ih]
    exact List.mem_cons

theorem exists_elements : ∀ {fs : List Field}, (∀ f ∈ fs, ∃ element, f.type.layout t named = some element) →
    ∃ elements, List.Forall₂ (fun f element => f.type.layout t named = some element) fs elements
  | [], _ => ⟨[], .nil⟩
  | f :: _, h => by
    obtain ⟨element, helement⟩ := h f List.mem_cons_self
    obtain ⟨elements, helements⟩ := exists_elements fun g hg => h g (List.mem_cons_of_mem _ hg)
    exact ⟨element :: elements, .cons helement helements⟩

/-- **Fields are laid out as their elements say, unless one of them is too large.** -/
theorem fieldLayouts_of_elements {fs : List Field} {elements : List Layout}
    (h : List.Forall₂ (fun f element => f.type.layout t named = some element) fs elements) :
    (∃ ms, fieldLayouts t named fs = some ms ∧ ms.map Layout.extent = extents fs elements) ∨
    (fieldLayouts t named fs = none ∧ ∃ m ∈ extents fs elements, UInt32.size ≤ m.size) := by
  induction h with
  | nil => exact .inl ⟨[], rfl, rfl⟩
  | @cons f element fs elements hf _ ih =>
    have hlayout := Field.layout_eq hf
    cases hsize : Layout.ofNat? (f.extent element).size with
    | none =>
      rw [hsize] at hlayout
      refine .inr ⟨?_, f.extent element, List.mem_cons_self, Layout.ofNat?_eq_none_iff.1 hsize⟩
      rw [fieldLayouts_cons, hlayout]
      rfl
    | some size =>
      rw [hsize] at hlayout
      rcases ih with ⟨ms, hms, hextents⟩ | ⟨hms, m, hm, hbig⟩
      · refine .inl ⟨⟨size, element.align⟩ :: ms, fieldLayouts_cons_eq_some.2 ⟨_, ms, hlayout, hms, rfl⟩, ?_⟩
        have hhead : Layout.extent ⟨size, element.align⟩ = f.extent element := by
          unfold Layout.extent Field.extent
          rw [Layout.ofNat?_eq_some_iff.1 hsize]
          rfl
        rw [List.map_cons, hhead, hextents]
        rfl
      · refine .inr ⟨?_, m, List.mem_cons_of_mem _ hm, hbig⟩
        rw [fieldLayouts_cons, hlayout, hms]
        rfl

/-- **The layout of an aggregate, from its elements**: its exact size if that fits, with the largest alignment. -/
theorem aggregate_of_elements (kind : AggregateKind) {fs : List Field} {elements : List Layout}
    (hlayouts : List.Forall₂ (fun f element => f.type.layout t named = some element) fs elements)
    (haligns : ∀ element ∈ elements, 1 ≤ element.align) :
    (Extent.aggregateSize kind (extents fs elements) < UInt32.size →
      ∃ l, (fieldLayouts t named fs).bind (Layout.ofAggregate kind) = some l ∧
        l.extent = ⟨Extent.aggregateSize kind (extents fs elements), Extent.largestAlign (extents fs elements)⟩) ∧
    (UInt32.size ≤ Extent.aggregateSize kind (extents fs elements) →
      (fieldLayouts t named fs).bind (Layout.ofAggregate kind) = none) := by
  have hpos : ∀ m ∈ extents fs elements, 1 ≤ m.align := fun m hm => one_le_align_of_mem_extents haligns hm
  rcases fieldLayouts_of_elements hlayouts with ⟨ms, hms, hextents⟩ | ⟨hms, m, hm, hbig⟩
  · have haligned : ∀ m ∈ ms, m.align ≠ 0 := fun m hm =>
      Layout.one_le_toNat_iff.1 (hpos m.extent (hextents ▸ List.mem_map_of_mem hm))
    rw [hms, Option.bind_some, Layout.ofAggregate_eq kind haligned, hextents]
    refine ⟨fun hfits => ?_, fun hbig => ?_⟩
    · obtain ⟨size, hsize⟩ : ∃ size, Layout.ofNat? (Extent.aggregateSize kind (extents fs elements)) = some size :=
        ⟨_, if_pos hfits⟩
      rw [hsize]
      refine ⟨_, rfl, ?_⟩
      unfold Layout.extent
      rw [Layout.toNat_largestAlign, hextents, Layout.ofNat?_eq_some_iff.1 hsize]
    · rw [Layout.ofNat?_eq_none_iff.2 hbig]
      rfl
  · -- a member that is too large by itself makes the aggregate too large
    have hroom := Extent.size_le_aggregateSize kind hpos hm
    rw [hms]
    exact ⟨fun hfits => by omega, fun _ => rfl⟩

theorem Body.layout_struct {r : Record} (hkind : r.kind = .struct) {elements : List Layout}
    (hlayouts : List.Forall₂ (fun f element => f.type.layout t named = some element) r.fields elements)
    (haligns : ∀ element ∈ elements, 1 ≤ element.align) :
    (Extent.structSize (extents r.fields elements) < UInt32.size →
      ∃ l, (Body.record r).layout t named = some l ∧
        l.extent = ⟨Extent.structSize (extents r.fields elements), Extent.largestAlign (extents r.fields elements)⟩) ∧
    (UInt32.size ≤ Extent.structSize (extents r.fields elements) → (Body.record r).layout t named = none) := by
  have hbody : (Body.record r).layout t named = (fieldLayouts t named r.fields).bind (Layout.ofAggregate .struct) := by
    rw [← hkind]
    rfl
  rw [hbody]
  exact aggregate_of_elements .struct hlayouts haligns

end

/-- **A struct is as small as C allows, and has no layout exactly if that does not fit.**  Given the layouts of the
elements, the members take exact sizes; of all multiples of the largest alignment by which some placement of the members
ends, the least is the size. -/
theorem Table.structLayout_isLeast (t : Table) (d : Dialect) {r : Record} (hkind : r.kind = .struct)
    {elements : List Layout}
    (hlayouts : List.Forall₂ (fun f element => f.type.layout t.target (t.layoutOf d) = some element) r.fields elements)
    (haligns : ∀ element ∈ elements, 1 ≤ element.align) :
    ∃ size, IsLeast {n | Extent.largestAlign (extents r.fields elements) ∣ n ∧
        ∃ offsets, Placement n 0 (extents r.fields elements) offsets} size ∧
      (size < UInt32.size → ∃ l, t.bodyLayout d (.record r) = some l ∧ l.size.toNat = size ∧
        l.align.toNat = Extent.largestAlign (extents r.fields elements)) ∧
      (UInt32.size ≤ size → t.bodyLayout d (.record r) = none) := by
  obtain ⟨hfits, hbig⟩ := Body.layout_struct hkind hlayouts haligns
  refine ⟨_, Extent.structSize_isLeast fun m hm => one_le_align_of_mem_extents haligns hm, fun hsize => ?_, hbig⟩
  obtain ⟨l, hl, hextent⟩ := hfits hsize
  exact ⟨l, hl, congrArg Extent.size hextent, congrArg Extent.align hextent⟩

/-- A `char`, three `long long`, and as many `short` as fit into five bytes. -/
def Record.packet : Record :=
  { fields := [{ name := "kind", type := .scalar (.plain .char) },
      { name := "words", type := .scalar (.plain .longLong), length := some (.count 3) },
      { name := "rest", type := .scalar (.plain .short), length := some (.bytes 5) }] }

theorem Table.structLayout_isLeast_packet :
    List.Forall₂ (fun f element => f.type.layout (.ofModel "" .lp64) ((empty (.ofModel "" .lp64) {}).layoutOf .c) =
      some element) Record.packet.fields [⟨1, 1⟩, ⟨8, 8⟩, ⟨2, 2⟩] ∧
    extents Record.packet.fields [⟨1, 1⟩, ⟨8, 8⟩, ⟨2, 2⟩] = [⟨1, 1⟩, ⟨24, 8⟩, ⟨4, 2⟩] ∧
    (empty (.ofModel "" .lp64) {}).bodyLayout .c (.record .packet) = some ⟨40, 8⟩ ∧
    IsLeast {n | 8 ∣ n ∧ ∃ offsets, Placement n 0 [⟨1, 1⟩, ⟨24, 8⟩, ⟨4, 2⟩] offsets} 40 := by
  have hlayouts : List.Forall₂ (fun f element => f.type.layout (.ofModel "" .lp64)
      ((empty (.ofModel "" .lp64) {}).layoutOf .c) = some element) Record.packet.fields
      [⟨1, 1⟩, ⟨8, 8⟩, ⟨2, 2⟩] := .cons rfl (.cons rfl (.cons rfl .nil))
  have hlayout : (empty (.ofModel "" .lp64) {}).bodyLayout .c (.record .packet) = some ⟨40, 8⟩ := by decide
  refine ⟨hlayouts, by decide, hlayout, ?_⟩
  obtain ⟨size, hleast, hfits, hbig⟩ :=
    (empty (.ofModel "" .lp64) {}).structLayout_isLeast .c (r := .packet) rfl hlayouts (by decide)
  have hsize : size < UInt32.size := Nat.lt_of_not_le fun h => by rw [hbig h] at hlayout; cases hlayout
  obtain ⟨l, hl, rfl, -⟩ := hfits hsize
  rw [hlayout] at hl
  cases hl
  exact hleast

end CAbi
