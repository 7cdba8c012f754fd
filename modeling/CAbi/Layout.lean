import CAbi.Body
import CAbi.Target
/-!
# Layout — size and alignment in 32-bit words

Sizes are 32-bit.  Every step that could leave that range is an operation of its own that says so (`add?`, `mul?`,
`roundUp?`); each is its exact counterpart on the natural numbers followed by one question, whether the result fits
(`ofNat?`).  A layout that does not fit does not exist: nothing wraps, nothing saturates.

A body's layout is computed against a reading of the names in it, `named`.  What a name means is the table's affair;
here it is a parameter, and so the arithmetic is free of recursion.
-/
namespace CAbi

structure Layout where
  size : UInt32
  align : UInt32
  deriving DecidableEq, Repr

namespace Layout

/-- **The number as a 32-bit size**, if it is one. -/
def ofNat? (n : Nat) : Option UInt32 := if n < UInt32.size then some (UInt32.ofNat n) else none

def add? (a b : UInt32) : Option UInt32 := ofNat? (a.toNat + b.toNat)

def mul? (a b : UInt32) : Option UInt32 := ofNat? (a.toNat * b.toNat)

/-- The least multiple of `a` that is at least `n`, for positive `a`. -/
def roundUp (n a : Nat) : Nat := (n + a - 1) / a * a

/-- **The size rounded up to an alignment**; there is no rounding up to zero. -/
def roundUp? (size align : UInt32) : Option UInt32 :=
  if align = 0 then none else ofNat? (roundUp size.toNat align.toNat)

theorem ofNat?_eq_some_iff {n : Nat} {w : UInt32} : ofNat? n = some w ↔ w.toNat = n := by
  unfold ofNat?
  split
  · rename_i h
    rw [Option.some.injEq]
    constructor
    · rintro rfl
      exact UInt32.toNat_ofNat_of_lt h
    · rintro rfl
      exact UInt32.ofNat_toNat
  · rename_i h
    simp only [reduceCtorEq, false_iff]
    rintro rfl
    exact h w.toNat_lt

/-! ## Placing members

The fields of a struct lie one after the other, each at the next multiple of its alignment; the members of a union lie
on top of each other.  Both end at a multiple of the largest alignment, so that an array of them keeps every member
aligned whose alignment divides the largest. -/

/-- **The end of the last field**, when the first is placed at or after `size`. -/
def placeAll (size : UInt32) : List Layout → Option UInt32
  | [] => some size
  | m :: ms => do
    let start ← roundUp? size m.align
    let stop ← add? start m.size
    placeAll stop ms

def largestAlign (ms : List Layout) : UInt32 := ms.foldl (fun a m => max a m.align) 1

def largestSize (ms : List Layout) : UInt32 := ms.foldl (fun s m => max s m.size) 0

def ofStruct (ms : List Layout) : Option Layout := do
  let stop ← placeAll 0 ms
  let size ← roundUp? stop (largestAlign ms)
  some ⟨size, largestAlign ms⟩

def ofUnion (ms : List Layout) : Option Layout := do
  let size ← roundUp? (largestSize ms) (largestAlign ms)
  some ⟨size, largestAlign ms⟩

def ofAggregate : AggregateKind → List Layout → Option Layout
  | .struct => ofStruct
  | .union => ofUnion

end Layout

/-- **How many elements a field has**, given the size of one.  A byte length over elements of no size counts them as one
byte each. -/
def Field.elementCount (f : Field) (elementSize : UInt32) : UInt32 :=
  match f.length with
  | none => 1
  | some (.count n) => n
  | some (.bytes n) => n / max elementSize 1

section

variable (t : Target) (named : String → Option Layout)

/-- **A type's layout**: `void` and bare tags have none, a pointer has the pointer's whatever it points to. -/
def CType.layout (type : CType) : Option Layout :=
  match type.pointers with
  | _ :: _ => some ⟨t.widths.pointer, t.widths.pointer⟩
  | [] =>
    match type.base with
    | .void => none
    | .tagged _ _ => none
    | .scalar s => some ⟨t.sizeOf s.kind, t.alignOf s.kind⟩
    | .builtin name => (t.builtin? name).map fun b => ⟨b.size, b.align⟩
    | .named name => named name

/-- **A field's layout**: its elements side by side, aligned as one of them. -/
def Field.layout (f : Field) : Option Layout := do
  let element ← f.type.layout t named
  let size ← Layout.mul? element.size (f.elementCount element.size)
  some ⟨size, element.align⟩

def fieldLayouts (fs : List Field) : Option (List Layout) := fs.mapM fun f => f.layout t named

/-- **A body's layout.**  The views of an opaque handle lie on top of each other. -/
def Body.layout : Body → Option Layout
  | .synonym type => type.layout t named
  | .record r => fieldLayouts t named r.fields >>= Layout.ofAggregate r.kind
  | .opaqueHandle views => fieldLayouts t named views >>= Layout.ofUnion

end

end CAbi
