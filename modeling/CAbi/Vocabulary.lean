import CAbi.Table.Basic
/-!
# Vocabulary — the names a complete table covers

The standard vocabulary is what a C library's headers ask for.  `wchar_t` is a keyword of C++, so only C has to define
it.
-/
namespace CAbi

structure Word where
  name : String
  scope : Scope := .any
  deriving DecidableEq, Repr

namespace Vocabulary

/-- **The standard request vocabulary.** -/
def standard : List Word :=
  (["va_list", "__isoc_va_list"].map fun n => { name := n }) ++
  [{ name := "wchar_t", scope := .c }] ++
  (["float_t", "double_t", "max_align_t", "time_t", "suseconds_t", "pthread_attr_t", "pthread_mutex_t", "mtx_t",
    "pthread_cond_t", "cnd_t", "pthread_rwlock_t", "pthread_barrier_t", "size_t", "uintptr_t", "ptrdiff_t", "ssize_t",
    "intptr_t", "regoff_t", "register_t", "int8_t", "int16_t", "int32_t", "int64_t", "intmax_t", "uint8_t", "uint16_t",
    "uint32_t", "uint64_t", "u_int64_t", "uintmax_t", "mode_t", "nlink_t", "off_t", "ino_t", "dev_t", "blksize_t",
    "blkcnt_t", "fsblkcnt_t", "fsfilcnt_t", "wint_t", "wctype_t", "timer_t", "clockid_t", "clock_t", "struct_timeval",
    "struct_timespec", "pid_t", "id_t", "uid_t", "gid_t", "key_t", "useconds_t", "pthread_t", "pthread_once_t",
    "pthread_key_t", "pthread_spinlock_t", "pthread_mutexattr_t", "pthread_condattr_t", "pthread_barrierattr_t",
    "pthread_rwlockattr_t", "FILE", "mbstate_t", "locale_t", "sigset_t", "struct_iovec", "socklen_t", "sa_family_t"].map
      fun n => { name := n })

end Vocabulary

/-- **The words a table leaves out**, one defect for each dialect a word covers and the table does not. -/
def Table.missingWords (t : Table) (vocabulary : List Word) : List Defect :=
  vocabulary.flatMap fun w =>
    (Dialect.all.filter fun d => w.scope.admits d && (t.lookup w.name d).isNone).map fun d =>
      .missingWord w.name d t.target.name

end CAbi
