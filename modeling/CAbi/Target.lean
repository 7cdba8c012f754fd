import CAbi.CType
/-!
# Target — the numbers a machine brings

A target fixes what C leaves open: how wide the scalars and pointers are, where their alignment differs from their
width, which plain integer types `_Addr`, `_Int64` and `_Reg` stand for, and the compiler's own types with their
layouts.

Nothing here refuses a number.  A target of zero widths can be described, and `Table.targetDefects` is where it is found
wanting.
-/
namespace CAbi

inductive Endian where
  | little
  | big
  deriving DecidableEq, Repr

def Endian.name : Endian → String
  | .little => "little"
  | .big => "big"

/-- **The two data models a target starts from.** -/
inductive DataModel where
  | ilp32
  | lp64
  deriving DecidableEq, Repr

/-- **Widths in bytes** of the scalars and of object pointers; `char` is always one byte. -/
structure Widths where
  short : UInt32
  int : UInt32
  long : UInt32
  longLong : UInt32
  pointer : UInt32
  float : UInt32
  double : UInt32
  longDouble : UInt32
  deriving DecidableEq, Repr

namespace Widths

def ofModel (model : DataModel) : Widths :=
  let word : UInt32 := match model with
    | .ilp32 => 4
    | .lp64 => 8
  { short := 2, int := 4, long := word, longLong := 8, pointer := word, float := 4, double := 8, longDouble := 8 }

/-- Every width with the word a table file uses for it. -/
def named (w : Widths) : List (String × UInt32) :=
  [("short", w.short), ("int", w.int), ("long", w.long), ("long_long", w.longLong), ("pointer", w.pointer),
   ("float", w.float), ("double", w.double), ("long_double", w.longDouble)]

end Widths

/-- **Alignments that differ from the width.** -/
structure Alignments where
  longLong : Option UInt32 := none
  double : Option UInt32 := none
  longDouble : Option UInt32 := none
  deriving DecidableEq, Repr

/-- Every override with the word a table file uses for it. -/
def Alignments.named (a : Alignments) : List (String × Option UInt32) :=
  [("long_long", a.longLong), ("double", a.double), ("long_double", a.longDouble)]

/-- **The plain integer types a target may choose from.** -/
inductive PlainInteger where
  | int
  | long
  | longLong
  deriving DecidableEq, Repr

def PlainInteger.kind : PlainInteger → ScalarKind
  | .int => .int
  | .long => .long
  | .longLong => .longLong

/-- **What `_Addr`, `_Int64` and `_Reg` stand for.** -/
structure Chosen where
  addr : PlainInteger
  int64 : PlainInteger
  reg : PlainInteger
  deriving DecidableEq, Repr

def Chosen.ofModel : DataModel → Chosen
  | .ilp32 => { addr := .int, int64 := .longLong, reg := .int }
  | .lp64 => { addr := .long, int64 := .long, reg := .long }

structure Builtin where
  name : String
  size : UInt32
  align : UInt32
  deriving DecidableEq, Repr

structure Target where
  name : String
  endian : Endian := .little
  charSigned : Bool := true
  widths : Widths
  align : Alignments := {}
  chosen : Chosen
  builtins : List Builtin := []
  deriving DecidableEq, Repr

namespace Target

def ofModel (name : String) (model : DataModel) : Target :=
  { name := name, widths := .ofModel model, chosen := .ofModel model }

def concrete (t : Target) : ScalarKind → ScalarKind
  | .addr => t.chosen.addr.kind
  | .int64 => t.chosen.int64.kind
  | .reg => t.chosen.reg.kind
  | kind => kind

def plainSize (t : Target) : PlainInteger → UInt32
  | .int => t.widths.int
  | .long => t.widths.long
  | .longLong => t.widths.longLong

def sizeOf (t : Target) : ScalarKind → UInt32
  | .char => 1
  | .short => t.widths.short
  | .int => t.widths.int
  | .long => t.widths.long
  | .longLong => t.widths.longLong
  | .float => t.widths.float
  | .double => t.widths.double
  | .longDouble => t.widths.longDouble
  | .addr => t.plainSize t.chosen.addr
  | .int64 => t.plainSize t.chosen.int64
  | .reg => t.plainSize t.chosen.reg

/-- The override that applies to a plain kind, if the target has one. -/
def override? (t : Target) : ScalarKind → Option UInt32
  | .longLong => t.align.longLong
  | .double => t.align.double
  | .longDouble => t.align.longDouble
  | _ => none

/-- **A scalar's alignment**: the override of the kind it stands for, else its size. -/
def alignOf (t : Target) (kind : ScalarKind) : UInt32 :=
  (t.override? (t.concrete kind)).getD (t.sizeOf kind)

/-- The compiler type of that name; of two, the one declared first. -/
def builtin? (t : Target) (name : String) : Option Builtin := t.builtins.find? fun b => b.name == name

def pointerBits (t : Target) : Nat := t.widths.pointer.toNat * 8

/-- **The target in one line**, as reports show it. -/
def summary (t : Target) : String :=
  t.name ++ " (" ++ t.endian.name ++ " endian, " ++ (if t.charSigned then "signed" else "unsigned") ++ " char, " ++
    t.pointerBits.repr ++ "-bit pointers)"

theorem sizeOf_concrete (t : Target) (kind : ScalarKind) : t.sizeOf (t.concrete kind) = t.sizeOf kind := by
  cases kind <;> simp only [concrete, sizeOf]
  · cases t.chosen.addr <;> rfl
  · cases t.chosen.int64 <;> rfl
  · cases t.chosen.reg <;> rfl

theorem concrete_concrete (t : Target) (kind : ScalarKind) : t.concrete (t.concrete kind) = t.concrete kind := by
  cases kind <;> simp only [concrete]
  · cases t.chosen.addr <;> rfl
  · cases t.chosen.int64 <;> rfl
  · cases t.chosen.reg <;> rfl

theorem alignOf_concrete (t : Target) (kind : ScalarKind) : t.alignOf (t.concrete kind) = t.alignOf kind := by
  rw [alignOf, concrete_concrete, sizeOf_concrete, alignOf]

end Target
end CAbi
