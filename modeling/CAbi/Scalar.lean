/-!
# Scalar — the arithmetic types of C and how they are spelled

Eleven kinds.  Eight are plain C; `_Addr`, `_Int64` and `_Reg` stand for whichever plain integer type a target picks
for pointer-sized, 64-bit and register-sized values (`Target.concrete`).  A `Scalar` remembers how it was written:
`unsigned` and `unsigned int` are one type in C, but two spellings, and a declaration is written back as it was read.
-/
namespace CAbi

inductive ScalarKind where
  | char
  | short
  | int
  | long
  | longLong
  | float
  | double
  | longDouble
  | addr
  | int64
  | reg
  deriving DecidableEq, Repr

namespace ScalarKind

def all : List ScalarKind :=
  [.char, .short, .int, .long, .longLong, .float, .double, .longDouble, .addr, .int64, .reg]

def spelling : ScalarKind → String
  | .char => "char"
  | .short => "short"
  | .int => "int"
  | .long => "long"
  | .longLong => "long long"
  | .float => "float"
  | .double => "double"
  | .longDouble => "long double"
  | .addr => "_Addr"
  | .int64 => "_Int64"
  | .reg => "_Reg"

/-- The kinds whose meaning a target chooses, in the order a header defines them. -/
def targetChosen : List ScalarKind := [.addr, .int64, .reg]

end ScalarKind

inductive Sign where
  | plain
  | signed
  | unsigned
  deriving DecidableEq, Repr

/-- The keyword that writes the sign; a plain scalar has none. -/
def Sign.keyword? : Sign → Option String
  | .plain => none
  | .signed => some "signed"
  | .unsigned => some "unsigned"

/-- **A scalar as it is written.**  `implicitInt` says that the sign keyword stands alone and `int` is understood. -/
structure Scalar where
  kind : ScalarKind
  sign : Sign
  implicitInt : Bool
  deriving DecidableEq, Repr

namespace Scalar

def plain (kind : ScalarKind) : Scalar := ⟨kind, .plain, false⟩

def unsigned (kind : ScalarKind) : Scalar := ⟨kind, .unsigned, false⟩

/-- `int` written as its sign keyword alone. -/
def bare (sign : Sign) : Scalar := ⟨.int, sign, true⟩

/-- **The scalar's text**: sign keyword, then the kind unless it is left implicit.  Without a sign keyword the kind is
always written. -/
def spelling (s : Scalar) : String :=
  match s.sign.keyword? with
  | none => s.kind.spelling
  | some keyword => if s.implicitInt then keyword else keyword ++ " " ++ s.kind.spelling

end Scalar
end CAbi
