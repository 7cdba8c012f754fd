import CAbi.Declaration
import CAbi.Proofs.MissingLayout
/-!
# UnionLayout — members on top of each other

A union needs room for its largest member, up to a multiple of the largest alignment, and nothing else about its members
matters: not which member is which, and not their order (`unionSize_isLeast`, `Body.layout_perm`).

An opaque handle is laid out as the union of its views.  What is written for it is another type, a struct around that
union.  Both sides of this are read off one description of nested aggregates (`Shape`): its text is what the declaration
says, and its layout, computed level by level, is that of the bare union, because a struct with one member adds neither
padding nor alignment to it (`ofStruct_singleton`).
-/
namespace CAbi

/-! ## The smallest union -/

namespace Extent

open Layout (le_roundUp roundUp_le dvd_roundUp)

/-- **The size of a union is the least multiple of its alignment that has room for each of its members.** -/
theorem unionSize_isLeast (ms : List Extent) :
    IsLeast {n | largestAlign ms ∣ n ∧ ∀ m ∈ ms, m.size ≤ n} (unionSize ms) := by
  have halign := one_le_largestAlign ms
  refine ⟨⟨dvd_roundUp _ _, fun m hm => (size_le_largestSize hm).trans (le_roundUp _ halign)⟩, ?_⟩
  rintro n ⟨hdvd, hroom⟩
  exact roundUp_le halign (largestSize_le hroom) hdvd

theorem largest_perm {ms ms' : List Extent} (h : ms.Perm ms') :
    largestAlign ms = largestAlign ms' ∧ largestSize ms = largestSize ms' := by
  induction h with
  | nil => exact ⟨rfl, rfl⟩
  | cons m _ ih => simp only [largestAlign, largestSize, ih.1, ih.2, and_self]
  | swap a b ms => exact ⟨Nat.max_left_comm _ _ _, Nat.max_left_comm _ _ _⟩
  | trans _ _ ih₁ ih₂ => exact ⟨ih₁.1.trans ih₂.1, ih₁.2.trans ih₂.2⟩

end Extent

/-! ## The order of the members -/

theorem Layout.ofUnion_perm {ms ms' : List Layout} (h : ms.Perm ms') : ofUnion ms = ofUnion ms' := by
  obtain ⟨halign, hlargest⟩ := Extent.largest_perm (h.map extent)
  have hsize : Extent.unionSize (ms.map extent) = Extent.unionSize (ms'.map extent) := by
    unfold Extent.unionSize
    rw [halign, hlargest]
  have hword : largestAlign ms = largestAlign ms' := by
    rw [← UInt32.toNat_inj, toNat_largestAlign, toNat_largestAlign, halign]
  rw [ofUnion_eq, ofUnion_eq, hsize, hword]

section

variable {t : Target} {named : String → Option Layout}

theorem fieldLayouts_perm {fs fs' : List Field} (h : fs.Perm fs') : ∀ {ms : List Layout},
    fieldLayouts t named fs = some ms → ∃ ms', fieldLayouts t named fs' = some ms' ∧ ms.Perm ms' := by
  induction h with
  | nil => exact fun hms => ⟨_, hms, .refl _⟩
  | cons f _ ih =>
    intro ms hms
    obtain ⟨l, ls, hl, hls, rfl⟩ := fieldLayouts_cons_eq_some.1 hms
    obtain ⟨ls', hls', hperm⟩ := ih hls
    exact ⟨l :: ls', fieldLayouts_cons_eq_some.2 ⟨l, ls', hl, hls', rfl⟩, hperm.cons l⟩
  | swap f g fs =>
    intro ms hms
    obtain ⟨l, ls, hl, hls, rfl⟩ := fieldLayouts_cons_eq_some.1 hms
    obtain ⟨k, ks, hk, hks, rfl⟩ := fieldLayouts_cons_eq_some.1 hls
    have hrest : fieldLayouts t named (g :: fs) = some (l :: ks) := fieldLayouts_cons_eq_some.2 ⟨l, ks, hl, hks, rfl⟩
    exact ⟨k :: l :: ks, fieldLayouts_cons_eq_some.2 ⟨k, _, hk, hrest, rfl⟩, .swap k l ks⟩
  | trans _ _ ih₁ ih₂ =>
    intro ms hms
    obtain ⟨ms₁, hms₁, hperm₁⟩ := ih₁ hms
    obtain ⟨ms₂, hms₂, hperm₂⟩ := ih₂ hms₁
    exact ⟨ms₂, hms₂, hperm₁.trans hperm₂⟩

theorem Body.layout_perm {b b' : Body} (hb : b.kind? = some .union) (hb' : b'.kind? = some .union)
    (h : b'.members.Perm b.members) : b'.layout t named = b.layout t named := by
  rw [Body.layout_of_kind hb, Body.layout_of_kind hb']
  cases hms : fieldLayouts t named b.members with
  | none =>
    cases hms' : fieldLayouts t named b'.members with
    | none => rfl
    | some ms' =>
      obtain ⟨ms, hsome, -⟩ := fieldLayouts_perm h hms'
      rw [hms] at hsome
      cases hsome
  | some ms =>
    obtain ⟨ms', hms', hperm⟩ := fieldLayouts_perm h.symm hms
    rw [hms']
    exact Layout.ofUnion_perm hperm.symm

end

/-! ## A struct around a union -/

/-- **An aggregate as C writes it**: its members are fields or again aggregates, each with a name of its own. -/
inductive Shape where
  | field (f : Field)
  | aggregate (kind : AggregateKind) (members : List Shape) (name : String)

namespace Shape

mutual

def text : Shape → String
  | .field f => f.declarator
  | .aggregate kind members name => kind.keyword ++ " \x7b " ++ memberTexts members ++ "\x7d " ++ name

def memberTexts : List Shape → String
  | [] => ""
  | m :: ms => m.text ++ "; " ++ memberTexts ms

end

mutual

def layout (t : Target) (named : String → Option Layout) : Shape → Option Layout
  | .field f => f.layout t named
  | .aggregate kind members _ => (memberLayouts t named members).bind (Layout.ofAggregate kind)

def memberLayouts (t : Target) (named : String → Option Layout) : List Shape → Option (List Layout)
  | [] => some []
  | m :: ms => (m.layout t named).bind fun l => (memberLayouts t named ms).bind fun ls => some (l :: ls)

end

/-- **What is written for a handle**: a struct whose only member is the union of the views. -/
def handle (views : List Field) (name : String) : Shape :=
  .aggregate .struct [.aggregate .union (views.map .field) "__u"] name

theorem memberTexts_fields : ∀ fs : List Field,
    memberTexts (fs.map .field) = String.join (fs.map fun f => f.declarator ++ "; ")
  | [] => rfl
  | f :: fs => by
    rw [List.map_cons, List.map_cons, memberTexts, text, memberTexts_fields fs, String.join_cons]

theorem memberLayouts_fields (t : Target) (named : String → Option Layout) : ∀ fs : List Field,
    memberLayouts t named (fs.map .field) = fieldLayouts t named fs
  | [] => rfl
  | f :: fs => by
    rw [List.map_cons, memberLayouts, layout, memberLayouts_fields t named fs, fieldLayouts_cons]

theorem declaration_handle (views : List Field) (name : String) :
    (Body.opaqueHandle views).declaration name = "typedef " ++ (handle views name).text ++ ";" := by
  have hunion : (Shape.aggregate .union (views.map .field) "__u").text =
      "union" ++ " \x7b " ++ String.join (views.map fun f => f.declarator ++ "; ") ++ "\x7d " ++ "__u" := by
    rw [text, memberTexts_fields]
    rfl
  have hstruct : (handle views name).text = "struct" ++ " \x7b " ++
      ((Shape.aggregate .union (views.map .field) "__u").text ++ "; " ++ "") ++ "\x7d " ++ name := by
    rw [handle, text, memberTexts, memberTexts]
    rfl
  show "typedef struct \x7b union " ++ membersText views ++ " __u; \x7d " ++ name ++ ";" = _
  -- the two sides cut the same characters into texts at different places
  rw [hstruct, hunion, membersText, ← String.toList_inj]
  simp

end Shape

namespace Layout

/-- **A struct with one member is laid out as that member**, if the member's size is a multiple of its alignment. -/
theorem ofStruct_singleton {l : Layout} (halign : l.align ≠ 0) (hdvd : l.align.toNat ∣ l.size.toNat) :
    ofStruct [l] = some l := by
  have hpos : 0 < l.align.toNat := one_le_toNat_iff.2 halign
  have hlargest : Extent.largestAlign ([l].map extent) = l.align.toNat := Nat.max_eq_left hpos
  have hend : Extent.packedEnd 0 ([l].map extent) = l.size.toNat := by
    show roundUp 0 l.align.toNat + l.size.toNat = l.size.toNat
    rw [roundUp_of_dvd hpos (Nat.dvd_zero _), Nat.zero_add]
  have hsize : Extent.structSize ([l].map extent) = l.size.toNat := by
    unfold Extent.structSize
    rw [hend, hlargest, roundUp_of_dvd hpos hdvd]
  have hword : largestAlign [l] = l.align := by
    rw [← UInt32.toNat_inj, toNat_largestAlign, hlargest]
  rw [ofStruct_eq fun m hm => (List.mem_singleton.1 hm).symm ▸ halign, hsize, hword, ofNat?_toNat]
  rfl

theorem ofUnion_spec {ms : List Layout} {l : Layout} (h : ofUnion ms = some l) :
    l.align ≠ 0 ∧ l.align.toNat ∣ l.size.toNat := by
  rw [ofUnion_eq, Option.map_eq_some_iff] at h
  obtain ⟨size, hsize, rfl⟩ := h
  refine ⟨largestAlign_ne_zero ms, ?_⟩
  rw [toNat_largestAlign, ofNat?_eq_some_iff.1 hsize]
  exact dvd_roundUp _ _

end Layout

theorem Shape.layout_handle (t : Target) (named : String → Option Layout) (views : List Field) (name : String) :
    (handle views name).layout t named = (Body.opaqueHandle views).layout t named := by
  have hunion : (Shape.aggregate .union (views.map .field) "__u").layout t named =
      (Body.opaqueHandle views).layout t named := by
    rw [Shape.layout, memberLayouts_fields]
    rfl
  unfold handle
  rw [Shape.layout, memberLayouts, hunion]
  cases hl : (Body.opaqueHandle views).layout t named with
  | none => rfl
  | some l =>
    obtain ⟨ms, -, hms⟩ := Option.bind_eq_some_iff.1 hl
    obtain ⟨halign, hdvd⟩ := Layout.ofUnion_spec hms
    exact Layout.ofStruct_singleton halign hdvd

/-- **A union is as small as C allows, and so is the struct that is written for a handle.**  Given the layouts of the
elements, the size is the least multiple of the largest alignment that has room for each member, and there is no layout
exactly if that does not fit; the order of the members does not matter; and a handle with these members is declared as a
struct around their union, which has the same layout. -/
theorem Table.unionLayout_isLeast (t : Table) (d : Dialect) {b : Body} (hkind : b.kind? = some .union)
    {elements : List Layout}
    (hlayouts : List.Forall₂ (fun f element => f.type.layout t.target (t.layoutOf d) = some element) b.members elements)
    (haligns : ∀ element ∈ elements, 1 ≤ element.align) :
    (∃ size, IsLeast {n | Extent.largestAlign (extents b.members elements) ∣ n ∧
        ∀ m ∈ extents b.members elements, m.size ≤ n} size ∧
      (size < UInt32.size → ∃ l, t.bodyLayout d b = some l ∧ l.size.toNat = size ∧
        l.align.toNat = Extent.largestAlign (extents b.members elements)) ∧
      (UInt32.size ≤ size → t.bodyLayout d b = none)) ∧
    (∀ b' : Body, b'.kind? = some .union → b'.members.Perm b.members → t.bodyLayout d b' = t.bodyLayout d b) ∧
    ∀ name, (Body.opaqueHandle b.members).declaration name = "typedef " ++ (Shape.handle b.members name).text ++ ";" ∧
      (Shape.handle b.members name).layout t.target (t.layoutOf d) = t.bodyLayout d b := by
  refine ⟨⟨_, Extent.unionSize_isLeast _, ?_⟩, fun b' hb' => Body.layout_perm hkind hb', fun name => ⟨?_, ?_⟩⟩
  · obtain ⟨hfits, hbig⟩ := aggregate_of_elements .union hlayouts haligns
    rw [← Body.layout_of_kind hkind] at hfits hbig
    refine ⟨fun hsize => ?_, hbig⟩
    obtain ⟨l, hl, hextent⟩ := hfits hsize
    exact ⟨l, hl, congrArg Extent.size hextent, congrArg Extent.align hextent⟩
  · exact Shape.declaration_handle b.members name
  · rw [Shape.layout_handle]
    exact Body.layout_perm hkind rfl (.refl _)

/-- Eleven `int`, or five pointers that need more alignment and less room. -/
def lockViews : List Field :=
  [{ name := "__i", type := .scalar (.plain .int), length := some (.count 11) },
    { name := "__p", type := ⟨.void, true, [false]⟩, length := some (.count 5) }]

theorem Table.unionLayout_isLeast_lock :
    List.Forall₂ (fun f element => f.type.layout (.ofModel "" .lp64) ((empty (.ofModel "" .lp64) {}).layoutOf .c) =
      some element) lockViews [⟨4, 4⟩, ⟨8, 8⟩] ∧
    extents lockViews [⟨4, 4⟩, ⟨8, 8⟩] = [⟨44, 4⟩, ⟨40, 8⟩] ∧
    (empty (.ofModel "" .lp64) {}).bodyLayout .c (.opaqueHandle lockViews) = some ⟨48, 8⟩ ∧
    IsLeast {n | 8 ∣ n ∧ ∀ m ∈ ([⟨44, 4⟩, ⟨40, 8⟩] : List Extent), m.size ≤ n} 48 ∧
    (empty (.ofModel "" .lp64) {}).bodyLayout .c (.opaqueHandle lockViews.reverse) = some ⟨48, 8⟩ ∧
    (Shape.handle lockViews "lock_t").layout (.ofModel "" .lp64) ((empty (.ofModel "" .lp64) {}).layoutOf .c) =
      some ⟨48, 8⟩ := by
  have hlayouts : List.Forall₂ (fun f element => f.type.layout (.ofModel "" .lp64)
      ((empty (.ofModel "" .lp64) {}).layoutOf .c) = some element) lockViews [⟨4, 4⟩, ⟨8, 8⟩] :=
    .cons rfl (.cons rfl .nil)
  have hlayout : (empty (.ofModel "" .lp64) {}).bodyLayout .c (.opaqueHandle lockViews) = some ⟨48, 8⟩ := by decide
  obtain ⟨⟨size, hleast, hfits, hbig⟩, hperm, hshape⟩ :=
    (empty (.ofModel "" .lp64) {}).unionLayout_isLeast .c (b := .opaqueHandle lockViews) rfl hlayouts (by decide)
  have hsize : size < UInt32.size := Nat.lt_of_not_le fun h => by rw [hbig h] at hlayout; cases hlayout
  obtain ⟨l, hl, rfl, -⟩ := hfits hsize
  rw [hlayout] at hl
  cases hl
  refine ⟨hlayouts, by decide, hlayout, hleast, ?_, (hshape "lock_t").2.trans hlayout⟩
  exact (hperm (.opaqueHandle lockViews.reverse) rfl (List.reverse_perm lockViews)).trans hlayout

end CAbi
