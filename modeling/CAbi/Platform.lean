import CAbi.LoadError
import CAbi.Table.Check
/-!
# Platform — the built-in targets

Two platforms come with the library: 32-bit ARM with the embedded ABI, and 64-bit x86 with the System V ABI.  Both
follow one C library, so they declare the same names in the same order; they differ in their targets, in `wchar_t`,
and in how many words the runtime keeps behind each opaque handle.
-/
namespace CAbi
namespace Platform

/-! ## Types, shortly -/

def plain (kind : ScalarKind) : CType := .scalar (.plain kind)

def unsigned (kind : ScalarKind) : CType := .scalar (.unsigned kind)

/-- `unsigned`, with `int` left implicit. -/
def bareUnsigned : CType := .scalar (.bare .unsigned)

def named (name : String) : CType := { base := .named name }

def structTag (tag : String) : CType := { base := .tagged .struct tag }

def voidPointer : CType := { base := .void, pointers := [false] }

/-- `volatile void *volatile`. -/
def volatilePointer : CType := { base := .void, isVolatile := true, pointers := [true] }

def synonym (name : String) (type : CType) : Entry := { name := name, body := .synonym type }

def field (name : String) (type : CType) : Field := { name := name, type := type }

/-- A record known by its tag alone; its guards are its own, as no other producer names it like this. -/
def tagged (name tag : String) (fields : List Field) : Entry :=
  { name := name, body := .record { tag := some tag, tagOnly := true, fields := fields }, foreignAliases := false }

def record (name : String) (fields : List Field) : Entry := { name := name, body := .record { fields := fields } }

/-- **A handle of the threads library**: so many `int`s, plain and volatile, or so many words. -/
def handle (name : String) (ints : UInt32) (wordName : String) (word : CType) (words : UInt32) : Entry :=
  { name := name,
    body := .opaqueHandle
      [{ name := "__i", type := plain .int, length := some (.count ints) },
       { name := "__vi", type := { plain .int with isVolatile := true }, length := some (.count ints) },
       { name := wordName, type := word, length := some (.count words) }] }

/-! ## What the platforms do not share -/

/-- The size of a handle: in `int`s, and in words. -/
structure HandleSize where
  ints : UInt32
  words : UInt32

structure Shape where
  wideChar : CType
  /-- The words of a thread attribute object. -/
  attributeWord : CType
  threadAttributes : HandleSize
  mutex : HandleSize
  condition : HandleSize
  readWriteLock : HandleSize
  barrier : HandleSize

def entries (s : Shape) : List Entry :=
  [synonym "va_list" { base := .builtin "__builtin_va_list" },
   synonym "__isoc_va_list" { base := .builtin "__builtin_va_list" },
   { synonym "wchar_t" s.wideChar with scope := .c },
   synonym "float_t" (plain .float),
   synonym "double_t" (plain .double),
   record "max_align_t" [field "__ll" (plain .longLong), field "__ld" (plain .longDouble)],
   synonym "time_t" (plain .long),
   synonym "suseconds_t" (plain .long),
   handle "pthread_attr_t" s.threadAttributes.ints "__s" s.attributeWord s.threadAttributes.words,
   handle "pthread_mutex_t" s.mutex.ints "__p" volatilePointer s.mutex.words,
   handle "mtx_t" s.mutex.ints "__p" volatilePointer s.mutex.words,
   handle "pthread_cond_t" s.condition.ints "__p" voidPointer s.condition.words,
   handle "cnd_t" s.condition.ints "__p" voidPointer s.condition.words,
   handle "pthread_rwlock_t" s.readWriteLock.ints "__p" voidPointer s.readWriteLock.words,
   handle "pthread_barrier_t" s.barrier.ints "__p" voidPointer s.barrier.words,
   synonym "size_t" (unsigned .addr),
   synonym "uintptr_t" (unsigned .addr),
   synonym "ptrdiff_t" (plain .addr),
   synonym "ssize_t" (plain .addr),
   synonym "intptr_t" (plain .addr),
   synonym "regoff_t" (plain .addr),
   synonym "register_t" (plain .reg),
   synonym "int8_t" (.scalar ⟨.char, .signed, false⟩),
   synonym "int16_t" (plain .short),
   synonym "int32_t" (plain .int),
   synonym "int64_t" (plain .int64),
   synonym "intmax_t" (plain .int64),
   synonym "uint8_t" (unsigned .char),
   synonym "uint16_t" (unsigned .short),
   synonym "uint32_t" (unsigned .int),
   synonym "uint64_t" (unsigned .int64),
   synonym "u_int64_t" (unsigned .int64),
   synonym "uintmax_t" (unsigned .int64),
   synonym "mode_t" bareUnsigned,
   synonym "nlink_t" (unsigned .reg),
   synonym "off_t" (plain .int64),
   synonym "ino_t" (unsigned .int64),
   synonym "dev_t" (unsigned .int64),
   synonym "blksize_t" (plain .long),
   synonym "blkcnt_t" (plain .int64),
   synonym "fsblkcnt_t" (unsigned .int64),
   synonym "fsfilcnt_t" (unsigned .int64),
   synonym "wint_t" bareUnsigned,
   synonym "wctype_t" (unsigned .long),
   synonym "timer_t" voidPointer,
   synonym "clockid_t" (plain .int),
   synonym "clock_t" (plain .long),
   tagged "struct_timeval" "timeval" [field "tv_sec" (named "time_t"), field "tv_usec" (named "suseconds_t")],
   tagged "struct_timespec" "timespec" [field "tv_sec" (named "time_t"), field "tv_nsec" (plain .long)],
   synonym "pid_t" (plain .int),
   synonym "id_t" bareUnsigned,
   synonym "uid_t" bareUnsigned,
   synonym "gid_t" bareUnsigned,
   synonym "key_t" (plain .int),
   synonym "useconds_t" bareUnsigned,
   { synonym "pthread_t" (unsigned .long) with scope := .cxx },
   { synonym "pthread_t" (structTag "__pthread").pointerTo with scope := .c },
   synonym "pthread_once_t" (plain .int),
   synonym "pthread_key_t" bareUnsigned,
   synonym "pthread_spinlock_t" (plain .int),
   record "pthread_mutexattr_t" [field "__attr" bareUnsigned],
   record "pthread_condattr_t" [field "__attr" bareUnsigned],
   record "pthread_barrierattr_t" [field "__attr" bareUnsigned],
   record "pthread_rwlockattr_t" [{ field "__attr" bareUnsigned with length := some (.count 2) }],
   synonym "FILE" (structTag "_IO_FILE"),
   { name := "mbstate_t",
     body := .record
       { tag := some "__mbstate_t", fields := [field "__opaque1" bareUnsigned, field "__opaque2" bareUnsigned] } },
   synonym "locale_t" (structTag "__locale_struct").pointerTo,
   { name := "sigset_t",
     body := .record
       { tag := some "__sigset_t", fields := [{ field "__bits" (unsigned .long) with length := some (.bytes 128) }] } },
   tagged "struct_iovec" "iovec" [field "iov_base" voidPointer, field "iov_len" (named "size_t")],
   synonym "socklen_t" bareUnsigned,
   synonym "sa_family_t" (unsigned .short)]

/-! ## The platforms -/

def armTarget : Target :=
  { Target.ofModel "armv7-none-eabi" .ilp32 with
    charSigned := false
    align := { longLong := some 8, double := some 8, longDouble := some 8 }
    builtins := [{ name := "__builtin_va_list", size := 4, align := 4 }] }

def armShape : Shape :=
  { wideChar := bareUnsigned, attributeWord := bareUnsigned, threadAttributes := ⟨9, 9⟩, mutex := ⟨6, 6⟩,
    condition := ⟨12, 12⟩, readWriteLock := ⟨8, 8⟩, barrier := ⟨5, 5⟩ }

def x86Target : Target :=
  { Target.ofModel "x86_64-linux-musl" .lp64 with
    widths := { Widths.ofModel .lp64 with longDouble := 16 }
    align := { longDouble := some 16 }
    builtins := [{ name := "__builtin_va_list", size := 24, align := 8 }] }

def x86Shape : Shape :=
  { wideChar := plain .int, attributeWord := unsigned .long, threadAttributes := ⟨14, 7⟩, mutex := ⟨10, 5⟩,
    condition := ⟨12, 6⟩, readWriteLock := ⟨14, 7⟩, barrier := ⟨8, 4⟩ }

/-- **The built-in targets**, each with the shape of its types. -/
def all : List (Target × Shape) := [(armTarget, armShape), (x86Target, x86Shape)]

def names : List String := all.map fun p => p.1.name

def load (name : String) : Except LoadError Table :=
  match all.find? fun p => p.1.name == name with
  | none => .error (.unknownTarget name)
  | some (target, shape) => (Table.ofEntries target {} (entries shape)).mapError .defects

end Platform
end CAbi
