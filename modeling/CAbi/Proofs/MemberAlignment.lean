import CAbi.Proofs.MissingLayout
/-!
# MemberAlignment — where members lie when the record is moved

A member is placed at a multiple of its alignment, counted from the start of its record.  That it lies at such a
multiple in memory too, wherever the record may start and at every index of an array, is a matter of divisibility: the
record's alignment and size have to be multiples of the member's alignment (`staysAligned_iff`).

The alignment of a record is the largest among its members, not their least common multiple.  The two are the same if
the smaller alignments divide the largest, and of a target whose alignments all divide one another, as powers of two do,
this holds for every record, however deep it is nested (`Target.AlignmentsNest`).  The checks of a table ask of
alignments only that they are not zero, and let others pass.
-/
namespace CAbi

/-- **Offsets of the members in an aggregate of that size**: one after the other in a struct, all at the start of a
union. -/
def Offsets (size : Nat) (ms : List Extent) : AggregateKind → List Nat → Prop
  | .struct, offsets => Placement size 0 ms offsets
  | .union, offsets => offsets = ms.map (fun _ => 0) ∧ ∀ m ∈ ms, m.size ≤ size

/-- **The members stay aligned**: at every index of every array that starts at a multiple of the alignment. -/
def Layout.StaysAligned (l : Layout) (ms : List Extent) (offsets : List Nat) : Prop :=
  List.Forall₂ (fun m offset => ∀ base index, l.align.toNat ∣ base → m.align ∣ base + index * l.size.toNat + offset)
    ms offsets

/-- **Size and alignment are multiples of every member's alignment.** -/
def Layout.Suits (l : Layout) (ms : List Extent) : Prop :=
  ∀ m ∈ ms, m.align ∣ l.align.toNat ∧ m.align ∣ l.size.toNat

/-- **Of any two alignments of the target one divides the other.** -/
def Target.AlignmentsNest (t : Target) : Prop :=
  ∀ a ∈ t.alignments, ∀ b ∈ t.alignments, a.toNat ∣ b.toNat ∨ b.toNat ∣ a.toNat

-- by way of the list, as the words themselves are too many to try
instance (t : Target) : Decidable t.AlignmentsNest :=
  decidable_of_iff
    (t.alignments.all (fun a => t.alignments.all fun b => decide (a.toNat ∣ b.toNat ∨ b.toNat ∣ a.toNat)) = true)
    (by simp only [List.all_eq_true, decide_eq_true_eq, Target.AlignmentsNest])

/-! ## Offsets -/

theorem Placement.aligned {stop start : Nat} {ms : List Extent} {offsets : List Nat}
    (h : Placement stop start ms offsets) : List.Forall₂ (fun m offset => m.align ∣ offset) ms offsets := by
  induction h with
  | done _ => exact .nil
  | place aligned _ _ ih => exact .cons aligned ih

theorem Offsets.aligned {size : Nat} {ms : List Extent} {kind : AggregateKind} {offsets : List Nat}
    (h : Offsets size ms kind offsets) : List.Forall₂ (fun m offset => m.align ∣ offset) ms offsets := by
  cases kind with
  | struct => exact Placement.aligned h
  | union =>
    obtain ⟨rfl, -⟩ := h
    exact List.forall₂_map_right_iff.2 (List.forall₂_same.2 fun m _ => Nat.dvd_zero m.align)

theorem Extent.exists_offsets (kind : AggregateKind) {ms : List Extent} (h : ∀ m ∈ ms, 1 ≤ m.align) :
    ∃ offsets, Offsets (aggregateSize kind ms) ms kind offsets := by
  cases kind with
  | struct => exact exists_placement h (Layout.le_roundUp _ (one_le_largestAlign ms))
  | union => exact ⟨_, rfl, fun m hm => size_le_aggregateSize .union h hm⟩

theorem Layout.staysAligned_iff {l : Layout} {ms : List Extent} {offsets : List Nat}
    (h : List.Forall₂ (fun m offset => m.align ∣ offset) ms offsets) : l.StaysAligned ms offsets ↔ l.Suits ms := by
  unfold StaysAligned Suits
  induction h with
  | nil => simp
  | @cons m offset ms offsets haligned _ ih =>
    rw [List.forall₂_cons, ih, List.forall_mem_cons]
    refine and_congr_left fun _ => ⟨fun hm => ⟨?_, ?_⟩, ?_⟩
    · -- the record right after the start of memory, at its own alignment
      have hbase := hm l.align.toNat 0 (Nat.dvd_refl _)
      rwa [Nat.zero_mul, Nat.add_zero, Nat.dvd_add_left haligned] at hbase
    · -- the second record of an array at the start of memory
      have hindex := hm 0 1 (Nat.dvd_zero _)
      rwa [Nat.one_mul, Nat.zero_add, Nat.dvd_add_left haligned] at hindex
    · rintro ⟨halign, hsize⟩ base index hbase
      exact Nat.dvd_add (Nat.dvd_add (halign.trans hbase) (hsize.mul_left index)) haligned

/-! ## The largest alignment -/

theorem Extent.align_le_largestAlign : ∀ {ms : List Extent} {m : Extent}, m ∈ ms → m.align ≤ largestAlign ms
  | _ :: _, _, hm => by
    rcases List.mem_cons.1 hm with rfl | hm
    · exact Nat.le_max_left _ _
    · exact (align_le_largestAlign hm).trans (Nat.le_max_right _ _)

theorem Extent.largestAlign_dvd_aggregateSize (kind : AggregateKind) (ms : List Extent) :
    largestAlign ms ∣ aggregateSize kind ms := by
  cases kind <;> exact Layout.dvd_roundUp _ _

theorem Layout.suits_iff {l : Layout} {ms : List Extent} (halign : l.align.toNat = Extent.largestAlign ms)
    (hsize : l.align.toNat ∣ l.size.toNat) : l.Suits ms ↔ ∀ m ∈ ms, m.align ∣ Extent.largestAlign ms := by
  rw [← halign]
  exact forall₂_congr fun m _ => ⟨And.left, fun h => ⟨h, h.trans hsize⟩⟩

theorem Target.AlignmentsNest.dvd {t : Target} (h : t.AlignmentsNest) (ht : t.Sound) {a b : UInt32}
    (ha : a ∈ t.alignments) (hb : b ∈ t.alignments) (hle : a.toNat ≤ b.toNat) : a.toNat ∣ b.toNat := by
  rcases h a ha b hb with hab | hba
  · exact hab
  · -- a multiple that is not larger is the same
    have hpos : 0 < a.toNat := Layout.one_le_toNat_iff.2 (ht.ne_zero_of_mem_alignments a ha)
    rw [Nat.le_antisymm hle (Nat.le_of_dvd hpos hba)]

/-! ## Bodies -/

section

variable {t : Target} {named : String → Option Layout}

theorem one_le_align_of_elements (ht : t.Sound) (hnamed : ∀ n l, named n = some l → l.align ≠ 0) {fs : List Field}
    {elements : List Layout}
    (h : List.Forall₂ (fun f element => f.type.layout t named = some element) fs elements) :
    ∀ element ∈ elements, 1 ≤ element.align := by
  induction h with
  | nil => exact fun _ hmem => absurd hmem List.not_mem_nil
  | cons hf _ ih =>
    have halign := CType.align_of_layout (Q := (· ≠ 0)) ht.ne_zero_of_mem_alignments hnamed hf
    exact List.forall_mem_cons.2 ⟨UInt32.le_iff_toNat_le.2 (Layout.one_le_toNat_iff.2 halign), ih⟩

theorem Body.exists_element_of_layout {b : Body} {kind : AggregateKind} (hkind : b.kind? = some kind) {l : Layout}
    (hl : b.layout t named = some l) : ∀ f ∈ b.members, ∃ element, f.type.layout t named = some element := by
  rw [Body.layout_of_kind hkind] at hl
  obtain ⟨ms, hms, -⟩ := Option.bind_eq_some_iff.1 hl
  refine fun f hf => Option.ne_none_iff_exists'.1 fun hnone => ?_
  rw [fieldLayouts_eq_none_iff_type.2 (.inl ⟨f.type, List.mem_map_of_mem hf, hnone⟩)] at hms
  cases hms

/-- **A known layout of an aggregate, from its elements**: the exact size, and the largest alignment. -/
theorem Body.extent_of_layout (ht : t.Sound) (hnamed : ∀ n l, named n = some l → l.align ≠ 0) {b : Body}
    {kind : AggregateKind} (hkind : b.kind? = some kind) {l : Layout} (hl : b.layout t named = some l) :
    ∃ elements, List.Forall₂ (fun f element => f.type.layout t named = some element) b.members elements ∧
      (∀ element ∈ elements, 1 ≤ element.align) ∧
      l.extent = ⟨Extent.aggregateSize kind (extents b.members elements),
        Extent.largestAlign (extents b.members elements)⟩ := by
  obtain ⟨elements, helements⟩ := exists_elements (Body.exists_element_of_layout hkind hl)
  have haligns := one_le_align_of_elements ht hnamed helements
  obtain ⟨hfits, hbig⟩ := aggregate_of_elements kind helements haligns
  rw [Body.layout_of_kind hkind] at hl
  have hsize : Extent.aggregateSize kind (extents b.members elements) < UInt32.size :=
    Nat.lt_of_not_le fun hlarge => by rw [hbig hlarge] at hl; cases hl
  obtain ⟨l', hl', hextent⟩ := hfits hsize
  rw [hl] at hl'
  cases hl'
  exact ⟨elements, helements, haligns, hextent⟩

end

namespace Table

/-- **When the members of a record stay aligned.**  In a checked table the alignment of a record or handle is the
largest among its members, and its size is a multiple of it.  Its members lie at multiples of their own alignments in
every array of it exactly if size and alignment are multiples of each of these, and that is the case exactly if each
divides the largest; always, if the alignments of the target divide one another. -/
theorem members_stay_aligned_iff {target : Target} {guards : GuardScheme} {entries : List Entry} {t : Table}
    (h : ofEntries target guards entries = .ok t) (d : Dialect) {b : Body} {kind : AggregateKind}
    (hkind : b.kind? = some kind) {l : Layout} (hl : t.bodyLayout d b = some l) :
    ∃ elements,
      List.Forall₂ (fun f element => f.type.layout t.target (t.layoutOf d) = some element) b.members elements ∧
      l.align.toNat = Extent.largestAlign (extents b.members elements) ∧ l.align.toNat ∣ l.size.toNat ∧
      (∃ offsets, Offsets l.size.toNat (extents b.members elements) kind offsets) ∧
      (∀ offsets, Offsets l.size.toNat (extents b.members elements) kind offsets →
        (l.StaysAligned (extents b.members elements) offsets ↔ l.Suits (extents b.members elements))) ∧
      (l.Suits (extents b.members elements) ↔
        ∀ m ∈ extents b.members elements, m.align ∣ Extent.largestAlign (extents b.members elements)) ∧
      (t.target.AlignmentsNest → l.Suits (extents b.members elements)) := by
  have ht := (wellFormed_of_ofEntries h).target
  have hnamed : ∀ n l, t.layoutOf d n = some l → l.align ∈ t.target.alignments := fun n l =>
    layoutWithin_align (Q := (· ∈ t.target.alignments)) fun _ ha => ha
  obtain ⟨elements, helements, haligns, hextent⟩ :=
    Body.extent_of_layout ht (fun n l hn => ht.ne_zero_of_mem_alignments _ (hnamed n l hn)) hkind hl
  have hsize : l.size.toNat = Extent.aggregateSize kind (extents b.members elements) := congrArg Extent.size hextent
  have halign : l.align.toNat = Extent.largestAlign (extents b.members elements) := congrArg Extent.align hextent
  have hdvd : l.align.toNat ∣ l.size.toNat := by
    rw [halign, hsize]
    exact Extent.largestAlign_dvd_aggregateSize kind _
  have hsuits := Layout.suits_iff halign hdvd
  refine ⟨elements, helements, halign, hdvd, ?_, fun offsets ho => Layout.staysAligned_iff ho.aligned, hsuits, ?_⟩
  · rw [hsize]
    exact Extent.exists_offsets kind fun m hm => one_le_align_of_mem_extents haligns hm
  · -- the members' alignments and the largest of them are all alignments of the target
    intro hnest
    have hlargest : l.align ∈ t.target.alignments := Body.align_of_layout (fun _ ha => ha) hnamed hl
    refine hsuits.2 fun m hm => ?_
    have hle := Extent.align_le_largestAlign hm
    rw [← halign] at hle ⊢
    obtain ⟨f, -, element, helement, rfl⟩ := (mem_extents_iff helements).1 hm
    exact hnest.dvd ht (CType.align_of_layout (fun _ ha => ha) hnamed helement) hlargest hle

/-- A `char` and a `long long`, and how often they occur in a row. -/
def rowEntries : List Entry :=
  [{ name := "pair"
     body := .record
       { fields := [{ name := "kind", type := .scalar (.plain .char) },
           { name := "value", type := .scalar (.plain .longLong) }] } },
    { name := "row"
      body := .record
        { fields := [{ name := "count", type := .scalar (.plain .short) },
            { name := "pairs", type := ⟨.named "pair", false, []⟩, length := some (.count 3) }] } }]

theorem members_stay_aligned_iff_row :
    ofEntries (.ofModel "" .lp64) {} rowEntries = .ok ⟨.ofModel "" .lp64, {}, rowEntries⟩ ∧
    (Target.ofModel "" .lp64).AlignmentsNest ∧
    ∃ row ∈ rowEntries, bodyLayout ⟨.ofModel "" .lp64, {}, rowEntries⟩ .c row.body = some ⟨56, 8⟩ ∧
      extents row.body.members [⟨2, 2⟩, ⟨16, 8⟩] = [⟨2, 2⟩, ⟨48, 8⟩] ∧
      (⟨56, 8⟩ : Layout).Suits [⟨2, 2⟩, ⟨48, 8⟩] ∧ (⟨56, 8⟩ : Layout).StaysAligned [⟨2, 2⟩, ⟨48, 8⟩] [0, 8] := by
  have hok : ofEntries (.ofModel "" .lp64) {} rowEntries = .ok ⟨.ofModel "" .lp64, {}, rowEntries⟩ := by
    decide +kernel
  have hnest : (Target.ofModel "" .lp64).AlignmentsNest := by decide +kernel
  have hrow : rowEntries[1] ∈ rowEntries := List.getElem_mem _
  have hl : bodyLayout ⟨.ofModel "" .lp64, {}, rowEntries⟩ .c rowEntries[1].body = some ⟨56, 8⟩ := by decide +kernel
  have hkind : rowEntries[1].body.kind? = some .struct := rfl
  obtain ⟨elements, helements, -, -, -, hstays, -, hsuits⟩ := members_stay_aligned_iff hok .c hkind hl
  have heq : elements = [⟨2, 2⟩, ⟨16, 8⟩] :=
    List.right_unique_forall₂' (fun _ _ _ h h' => Option.some.inj (h.symm.trans h')) helements
      (.cons (by decide +kernel) (.cons (by decide +kernel) .nil))
  subst heq
  have hplaced : Offsets 56 [⟨2, 2⟩, ⟨48, 8⟩] .struct [0, 8] :=
    .place (by decide) (by decide) (.place (by decide) (by decide) (.done (by decide)))
  exact ⟨hok, hnest, _, hrow, hl, rfl, hsuits hnest, (hstays [0, 8] hplaced).2 (hsuits hnest)⟩

/-- A target with a `long double` of twelve bytes, aligned to its width. -/
def twelveByteReals : Target :=
  { Target.ofModel "" .ilp32 with widths := { Widths.ofModel .ilp32 with longDouble := 12 } }

/-- A `double` or a `long double`. -/
def realEntry : Entry :=
  { name := "real_t"
    body := .record
      { kind := .union
        fields := [{ name := "d", type := .scalar (.plain .double) },
          { name := "ld", type := .scalar (.plain .longDouble) }] } }

/-- **In a checked table a member can be out of place**: a union of twelve bytes, aligned to twelve, with a member that
is aligned to eight. -/
theorem largest_alignment_not_a_multiple :
    ofEntries twelveByteReals {} [realEntry] = .ok ⟨twelveByteReals, {}, [realEntry]⟩ ∧
    lookup ⟨twelveByteReals, {}, [realEntry]⟩ "real_t" .c = some realEntry ∧
    bodyLayout ⟨twelveByteReals, {}, [realEntry]⟩ .c realEntry.body = some ⟨12, 12⟩ ∧
    List.Forall₂ (fun f element =>
        f.type.layout twelveByteReals (layoutOf ⟨twelveByteReals, {}, [realEntry]⟩ .c) = some element)
      realEntry.body.members [⟨8, 8⟩, ⟨12, 12⟩] ∧
    ¬(8 ∣ 12) ∧
    ¬(⟨12, 12⟩ : Layout).StaysAligned (extents realEntry.body.members [⟨8, 8⟩, ⟨12, 12⟩]) [0, 0] := by
  refine ⟨by decide +kernel, by decide +kernel, by decide +kernel,
    .cons (by decide +kernel) (.cons (by decide +kernel) .nil), by decide, fun h => ?_⟩
  -- the second union of an array at the start of memory
  have hsecond : 8 ∣ 0 + 1 * 12 + 0 := (List.forall₂_cons.1 h).1 0 1 (Nat.dvd_zero _)
  exact absurd hsecond (by decide)

end Table
end CAbi
