import CAbi.Proofs.Placement
import CAbi.Proofs.ResolvedTypes
/-!
# ByteBounds — a length in bytes, as C reads it

An array that is to fill so many bytes is written with the bound `[n/sizeof(E)]`, and the division is left to the
compiler.  The layout does that division itself, by the size of the element.  The two agree if `E` is as large as the
element, and `E` is not the element's own text: a scalar is written without sign keyword and qualifier, a lone `unsigned`
becomes `int`, and the style may have changed the kind before that.

`E` spells a type all the same (`CType.element`).  Only the kind of a scalar enters its layout, and that kind is kept.
-/
namespace CAbi

namespace CType

variable {t : Target} {type : CType}

/-- The type that stands for the element in `sizeof`. -/
def element (type : CType) : CType :=
  match type.scalar? with
  | some s => scalar (.plain s.kind)
  | none => type

theorem element_cases (type : CType) :
    (∃ s v, type = ⟨.scalar s, v, []⟩ ∧ type.element = scalar (.plain s.kind) ∧
      type.elementSpelling = (Scalar.plain s.kind).spelling) ∨
    (type.element = type ∧ type.elementSpelling = type.spelling) := by
  obtain ⟨base, isVolatile, pointers⟩ := type
  cases pointers with
  | cons level levels => cases base <;> exact .inr ⟨rfl, rfl⟩
  | nil =>
    cases base with
    | scalar s => exact .inl ⟨s, isVolatile, rfl, rfl, rfl⟩
    | _ => exact .inr ⟨rfl, rfl⟩

theorem spelling_element (type : CType) : type.element.spelling = type.elementSpelling := by
  rcases type.element_cases with ⟨s, v, -, helement, htext⟩ | ⟨helement, htext⟩
  · rw [helement, htext]
    exact String.empty_append
  · rw [helement, htext]

theorem spellable_element (h : type.Spellable) : type.element.Spellable := by
  have hplain : ∀ kind, (Scalar.plain kind).Spellable := by
    intro kind
    cases kind <;> decide
  rcases type.element_cases with ⟨s, v, -, helement, -⟩ | ⟨helement, -⟩
  · rw [helement]
    exact hplain s.kind
  · rw [helement]
    exact h

theorem layout_element (named : String → Option Layout) : type.element.layout t named = type.layout t named := by
  rcases type.element_cases with ⟨s, v, rfl, helement, -⟩ | ⟨helement, -⟩
  · rw [helement]
    rfl
  · rw [helement]

end CType

namespace Style

variable {t : Target} {type : CType}

theorem spellable_onType (style : Style) (h : type.Spellable) : (style.onType t type).Spellable := by
  cases style with
  | portable => exact h
  | resolved => exact (type.resolves_onType t).spellable h

theorem layout_onType (style : Style) (named : String → Option Layout) :
    (style.onType t type).layout t named = type.layout t named := by
  cases style with
  | portable => rfl
  | resolved => exact (type.resolves_onType t).layout_eq named

theorem declarator_onField_of_bytes (style : Style) {f : Field} {n : UInt32} (h : f.length = some (.bytes n)) :
    (style.onField t f).declarator =
      (style.onType t f.type).spelling ++ (if endsInStar (style.onType t f.type).spelling then "" else " ") ++ f.name ++
        "[" ++ n.toNat.repr ++ "/sizeof(" ++ (style.onType t f.type).elementSpelling ++ ")]" := by
  simp only [Field.declarator, Field.bound, onField, h, String.append_assoc]

end Style

theorem Field.count_of_bytes {f : Field} {n : UInt32} (h : f.length = some (.bytes n)) {size : Nat} (hsize : size ≠ 0) :
    f.count size = n.toNat / size := by
  unfold Field.count
  rw [h]
  dsimp only
  rw [Nat.max_eq_right (Nat.one_le_iff_ne_zero.2 hsize)]

/-- **A bound in bytes means the number of elements that the layout counts.**  In every style the declarator of an array
that fills `n` bytes ends in `[n/sizeof(E)]`, where `E` spells a type with the layout of the element, or with none if
the element has none.  Where the layout is known and not empty, the field is laid out as `n/sizeof(E)` elements. -/
theorem Table.byte_bound_counts_elements (t : Table) (d : Dialect) (style : Style) {f : Field} {n : UInt32} {src : String}
    (hread : CType.ofSpelling src = .ok f.type) (hlength : f.length = some (.bytes n)) :
    let written := (style.onType t.target f.type).spelling
    ∃ E type, (style.onField t.target f).declarator =
        written ++ (if endsInStar written then "" else " ") ++ f.name ++ "[" ++ n.toNat.repr ++ "/sizeof(" ++ E ++ ")]" ∧
      CType.ofSpelling E = .ok type ∧
      type.layout t.target (t.layoutOf d) = f.type.layout t.target (t.layoutOf d) ∧
      ∀ l, type.layout t.target (t.layoutOf d) = some l → l.size ≠ 0 →
        (f.elementCount l.size).toNat = n.toNat / l.size.toNat ∧
        f.layout t.target (t.layoutOf d) =
          (Layout.ofNat? (l.size.toNat * (n.toNat / l.size.toNat))).map fun size => ⟨size, l.align⟩ := by
  intro written
  have hspellable := style.spellable_onType (t := t.target) (CType.spellable_of_ofSpelling hread)
  have hlayout : (style.onType t.target f.type).element.layout t.target (t.layoutOf d) =
      f.type.layout t.target (t.layoutOf d) := by
    rw [CType.layout_element, style.layout_onType]
  refine ⟨(style.onType t.target f.type).elementSpelling, (style.onType t.target f.type).element,
    style.declarator_onField_of_bytes hlength, ?_, hlayout, fun l hl hsize => ?_⟩
  · rw [← CType.spelling_element]
    exact CType.ofSpelling_spelling (CType.spellable_element hspellable)
  · have hcount : f.count l.size.toNat = n.toNat / l.size.toNat :=
      Field.count_of_bytes hlength (mt (UInt32.toNat_inj (b := 0)).1 hsize)
    rw [hlayout] at hl
    refine ⟨by rw [Field.toNat_elementCount, hcount], ?_⟩
    rw [Field.layout_eq hl, Field.extent, hcount]

/-- Sign and qualifier are dropped, the kind is the target's, and two bytes are left over. -/
theorem Table.byte_bound_counts_elements_bits :
    let t : Table := .empty (.ofModel "" .ilp32) {}
    let f : Field := ⟨"__bits", ⟨.scalar (.unsigned .int64), true, []⟩, some (.bytes 130)⟩
    CType.ofSpelling "volatile unsigned _Int64" = .ok f.type ∧
    (Style.resolved.onField t.target f).declarator =
      "volatile unsigned long long __bits[130/sizeof(long long)]" ∧
    f.type.layout t.target (t.layoutOf .c) = some ⟨8, 8⟩ ∧
    (f.elementCount 8).toNat = 16 ∧ f.layout t.target (t.layoutOf .c) = some ⟨128, 8⟩ := by
  intro t f
  have htext : f.type.spelling = "volatile unsigned _Int64" := by decide
  have hread : CType.ofSpelling "volatile unsigned _Int64" = .ok f.type := by
    rw [← htext]
    exact CType.ofSpelling_spelling (by decide)
  have hlayout : f.type.layout t.target (t.layoutOf .c) = some ⟨8, 8⟩ := by decide
  obtain ⟨E, type, -, -, hsame, hcounts⟩ := byte_bound_counts_elements t .c .resolved hread rfl
  obtain ⟨hcount, hfield⟩ := hcounts ⟨8, 8⟩ (hsame.trans hlayout) (by decide)
  exact ⟨hread, by decide, hlayout, hcount, hfield⟩

end CAbi
