import Mathlib.Logic.Relation
import CAbi.Proofs.HeldByValue
/-!
# LayoutRelation — layout without a bound

The rules of layout as derivations: a name has the layout of the body its entry gives it, a body that of its type or of
its members, a member that of its elements side by side.  Nothing counts steps here, and a type that holds itself has no
layout because a derivation is finite.

`layoutOf` and `bodyLayout`, which look through as many names as the table has entries, find exactly the layouts that
can be derived.
-/
namespace CAbi
namespace Table

mutual

/-- **A name has a layout**: that of the body found for it. -/
inductive NameLayout (t : Table) (d : Dialect) : String → Layout → Prop
  | entry {name : String} {e : Entry} {l : Layout} (found : t.lookup name d = some e)
      (body : BodyLayout t d e.body l) : NameLayout t d name l

/-- **A type has a layout.**  There is no rule for `void` and for bare tags. -/
inductive TypeLayout (t : Table) (d : Dialect) : CType → Layout → Prop
  | pointer {base : Base} {v level : Bool} {levels : List Bool} :
      TypeLayout t d ⟨base, v, level :: levels⟩ ⟨t.target.widths.pointer, t.target.widths.pointer⟩
  | scalar {s : Scalar} {v : Bool} :
      TypeLayout t d ⟨.scalar s, v, []⟩ ⟨t.target.sizeOf s.kind, t.target.alignOf s.kind⟩
  | builtin {name : String} {v : Bool} {b : Builtin} (found : t.target.builtin? name = some b) :
      TypeLayout t d ⟨.builtin name, v, []⟩ ⟨b.size, b.align⟩
  | named {name : String} {v : Bool} {l : Layout} (body : NameLayout t d name l) :
      TypeLayout t d ⟨.named name, v, []⟩ l

/-- **A member has a layout**: its elements side by side, aligned as one of them. -/
inductive FieldLayout (t : Table) (d : Dialect) : Field → Layout → Prop
  | elements {f : Field} {element : Layout} {size : UInt32} (type : TypeLayout t d f.type element)
      (fits : Layout.mul? element.size (f.elementCount element.size) = some size) :
      FieldLayout t d f ⟨size, element.align⟩

inductive MemberLayouts (t : Table) (d : Dialect) : List Field → List Layout → Prop
  | nil : MemberLayouts t d [] []
  | cons {f : Field} {fs : List Field} {l : Layout} {ls : List Layout} (head : FieldLayout t d f l)
      (tail : MemberLayouts t d fs ls) : MemberLayouts t d (f :: fs) (l :: ls)

/-- **A body has a layout**: that of its type, or its members one after the other or on top of each other. -/
inductive BodyLayout (t : Table) (d : Dialect) : Body → Layout → Prop
  | synonym {type : CType} {l : Layout} (has : TypeLayout t d type l) : BodyLayout t d (.synonym type) l
  | record {r : Record} {ls : List Layout} {l : Layout} (members : MemberLayouts t d r.fields ls)
      (fits : Layout.ofAggregate r.kind ls = some l) : BodyLayout t d (.record r) l
  | opaqueHandle {views : List Field} {ls : List Layout} {l : Layout} (members : MemberLayouts t d views ls)
      (fits : Layout.ofUnion ls = some l) : BodyLayout t d (.opaqueHandle views) l

end

/-! ## What is computed can be derived

By induction on the number of names looked through; the names in a body are read by whatever derives their layouts. -/

section

variable {t : Table} {d : Dialect} {named : String → Option Layout}

theorem typeLayout_of_layout (hnamed : ∀ n l, named n = some l → t.NameLayout d n l) {type : CType} {l : Layout}
    (h : type.layout t.target named = some l) : t.TypeLayout d type l := by
  obtain ⟨base, v, pointers⟩ := type
  cases pointers with
  | cons level levels => cases h; exact .pointer
  | nil =>
    cases base with
    | void => cases h
    | tagged kind tag => cases h
    | scalar s => cases h; exact .scalar
    | builtin name =>
      obtain ⟨b, hb, rfl⟩ := Option.map_eq_some_iff.1 h
      exact .builtin hb
    | named name => exact .named (hnamed name l h)

theorem fieldLayout_of_layout (hnamed : ∀ n l, named n = some l → t.NameLayout d n l) {f : Field} {l : Layout}
    (h : f.layout t.target named = some l) : t.FieldLayout d f l := by
  obtain ⟨element, helement, h⟩ := Option.bind_eq_some_iff.1 h
  obtain ⟨size, hsize, h⟩ := Option.bind_eq_some_iff.1 h
  cases h
  exact .elements (typeLayout_of_layout hnamed helement) hsize

theorem memberLayouts_of_fieldLayouts (hnamed : ∀ n l, named n = some l → t.NameLayout d n l) {fs : List Field}
    {ls : List Layout} (h : fieldLayouts t.target named fs = some ls) : t.MemberLayouts d fs ls := by
  induction fs generalizing ls with
  | nil => cases h; exact .nil
  | cons f fs ih =>
    obtain ⟨m, ms, hm, hms, rfl⟩ := fieldLayouts_cons_eq_some.1 h
    exact .cons (fieldLayout_of_layout hnamed hm) (ih hms)

theorem bodyLayout_of_layout (hnamed : ∀ n l, named n = some l → t.NameLayout d n l) {b : Body} {l : Layout}
    (h : b.layout t.target named = some l) : t.BodyLayout d b l := by
  cases b with
  | synonym type => exact .synonym (typeLayout_of_layout hnamed h)
  | record r =>
    obtain ⟨ls, hls, hl⟩ := Option.bind_eq_some_iff.1 h
    exact .record (memberLayouts_of_fieldLayouts hnamed hls) hl
  | opaqueHandle views =>
    obtain ⟨ls, hls, hl⟩ := Option.bind_eq_some_iff.1 h
    exact .opaqueHandle (memberLayouts_of_fieldLayouts hnamed hls) hl

theorem nameLayout_of_layoutWithin {n : Nat} {name : String} {l : Layout} (h : t.layoutWithin d n name = some l) :
    t.NameLayout d name l := by
  induction n generalizing name l with
  | zero => cases h
  | succ n ih =>
    obtain ⟨e, he, hl⟩ := Option.bind_eq_some_iff.1 h
    exact .entry he (bodyLayout_of_layout (fun _ _ => ih) hl)

end

/-! ## What can be derived is computed

By recursion on the derivation.  The layout of a name is a fixed point (`layoutOf_eq`), so a derivation of any depth is
followed without counting. -/

variable {t : Table} {d : Dialect}

mutual

theorem NameLayout.layoutOf_eq_some : ∀ {name : String} {l : Layout},
    t.NameLayout d name l → t.layoutOf d name = some l
  | _, _, .entry found body => by
    rw [layoutOf_eq, found]
    exact body.bodyLayout_eq_some

theorem TypeLayout.layout_eq_some : ∀ {type : CType} {l : Layout},
    t.TypeLayout d type l → type.layout t.target (t.layoutOf d) = some l
  | _, _, .pointer => rfl
  | _, _, .scalar => rfl
  | _, _, .builtin found => by simp only [CType.layout, found, Option.map_some]
  | _, _, .named body => body.layoutOf_eq_some

theorem FieldLayout.layout_eq_some : ∀ {f : Field} {l : Layout},
    t.FieldLayout d f l → f.layout t.target (t.layoutOf d) = some l
  | _, _, .elements type fits =>
    Option.bind_eq_some_iff.2 ⟨_, type.layout_eq_some, Option.bind_eq_some_iff.2 ⟨_, fits, rfl⟩⟩

theorem MemberLayouts.fieldLayouts_eq_some : ∀ {fs : List Field} {ls : List Layout},
    t.MemberLayouts d fs ls → fieldLayouts t.target (t.layoutOf d) fs = some ls
  | _, _, .nil => rfl
  | _, _, .cons head tail => fieldLayouts_cons_eq_some.2 ⟨_, _, head.layout_eq_some, tail.fieldLayouts_eq_some, rfl⟩

theorem BodyLayout.bodyLayout_eq_some : ∀ {b : Body} {l : Layout},
    t.BodyLayout d b l → t.bodyLayout d b = some l
  | _, _, .synonym type => type.layout_eq_some
  | _, _, .record members fits => Option.bind_eq_some_iff.2 ⟨_, members.fieldLayouts_eq_some, fits⟩
  | _, _, .opaqueHandle members fits => Option.bind_eq_some_iff.2 ⟨_, members.fieldLayouts_eq_some, fits⟩

end

theorem layoutOf_eq_some_iff {name : String} {l : Layout} : t.layoutOf d name = some l ↔ t.NameLayout d name l :=
  ⟨nameLayout_of_layoutWithin, NameLayout.layoutOf_eq_some⟩

/-! ## Types that hold themselves -/

/-- **One name holds another by value.** -/
def Holds (t : Table) (d : Dialect) (a b : String) : Prop := ∃ e, t.lookup a d = some e ∧ b ∈ e.body.held

/-- A name with a layout holds names with layouts, which are known after fewer steps. -/
theorem acc_of_layoutWithin {n : Nat} {name : String} (h : (t.layoutWithin d n name).isSome = true) :
    Acc (fun b a => t.Holds d a b) name := by
  induction n generalizing name with
  | zero => cases h
  | succ n ih =>
    -- the bound goes down by one with each name that is held
    refine ⟨name, fun b hb => ih ?_⟩
    obtain ⟨e, he, hheld⟩ := hb
    obtain ⟨l, hl⟩ := Option.isSome_iff_exists.1 h
    obtain ⟨e', he', hl⟩ := Option.bind_eq_some_iff.1 hl
    rw [he] at he'
    cases he'
    exact Body.isSome_of_held hl hheld

theorem not_cyclic_of_acc {a : String} (h : Acc (fun b a => t.Holds d a b) a) :
    ¬Relation.TransGen (t.Holds d) a a := by
  induction h with
  | intro a _ ih =>
    intro hcycle
    obtain ⟨b, hab, hba⟩ := Relation.TransGen.head'_iff.1 hcycle
    exact ih b hab (Relation.TransGen.tail' hba hab)

theorem acc_of_reflTransGen {a b : String} (h : Relation.ReflTransGen (t.Holds d) a b)
    (ha : Acc (fun b a => t.Holds d a b) a) : Acc (fun b a => t.Holds d a b) b := by
  induction h with
  | refl => exact ha
  | tail _ hstep ih => exact ih.inv hstep

/-- **A name from which a cycle is reached has no layout.** -/
theorem layoutOf_eq_none_of_cycle {a b : String} (hreach : Relation.ReflTransGen (t.Holds d) a b)
    (hcycle : Relation.TransGen (t.Holds d) b b) : t.layoutOf d a = none := by
  cases h : t.layoutOf d a with
  | none => rfl
  | some l =>
    have hacc := acc_of_layoutWithin (Option.isSome_iff_exists.2 ⟨l, h⟩ : (t.layoutWithin d (t.size + 1) a).isSome = true)
    exact absurd hcycle (not_cyclic_of_acc (acc_of_reflTransGen hreach hacc))

/-- **The bound on layouts is exact.**  In every table and dialect, a name and a body have the layouts that can be
derived for them and no others; a name that holds itself by value, directly or through others, has none, and neither
has a name or a body that holds such a name. -/
theorem layout_iff_derivable (t : Table) (d : Dialect) :
    (∀ name l, t.layoutOf d name = some l ↔ t.NameLayout d name l) ∧
    (∀ body l, t.bodyLayout d body = some l ↔ t.BodyLayout d body l) ∧
    (∀ a b, Relation.ReflTransGen (t.Holds d) a b → Relation.TransGen (t.Holds d) b b →
      t.layoutOf d a = none ∧ ∀ body, a ∈ body.held → t.bodyLayout d body = none) := by
  refine ⟨fun name l => layoutOf_eq_some_iff, fun body l => ⟨fun h => ?_, BodyLayout.bodyLayout_eq_some⟩,
    fun a b hreach hcycle => ?_⟩
  · exact bodyLayout_of_layout (fun n m => layoutOf_eq_some_iff.1) h
  · have ha := layoutOf_eq_none_of_cycle hreach hcycle
    refine ⟨ha, fun body hheld => Option.eq_none_iff_forall_ne_some.2 fun l hl => ?_⟩
    have hsome : (t.layoutOf d a).isSome = true := Body.isSome_of_held hl hheld
    rw [ha] at hsome
    cases hsome

end Table
end CAbi
