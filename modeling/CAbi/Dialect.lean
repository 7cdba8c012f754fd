/-!
# Dialect — the two languages a type is declared for

A name such as `pthread_t` may be one thing in C and another in C++.  An entry therefore carries a `Scope`, the set of
dialects it speaks for, and two entries of one name may stand side by side exactly when their scopes share no dialect.
-/
namespace CAbi

inductive Dialect where
  | c
  | cxx
  deriving DecidableEq, Repr

namespace Dialect

/-- Both dialects, in the order every report lists them. -/
def all : List Dialect := [.c, .cxx]

def name : Dialect → String
  | .c => "C"
  | .cxx => "C++"

theorem mem_all : ∀ d : Dialect, d ∈ all
  | .c => by simp [all]
  | .cxx => by simp [all]

end Dialect

/-- **The dialects an entry is defined for.** -/
inductive Scope where
  | any
  | c
  | cxx
  deriving DecidableEq, Repr

namespace Scope

def admits : Scope → Dialect → Bool
  | .any, _ => true
  | .c, .c => true
  | .cxx, .cxx => true
  | _, _ => false

def overlaps (s t : Scope) : Bool :=
  Dialect.all.any fun d => s.admits d && t.admits d

/-- The word a table file uses for the scope. -/
def word : Scope → String
  | .any => "any"
  | .c => "c"
  | .cxx => "c++"

/-- The name a defect report uses for the scope. -/
def label : Scope → String
  | .any => "Any"
  | .c => "C"
  | .cxx => "Cxx"

def words : List (String × Scope) :=
  [Scope.any, Scope.c, Scope.cxx].map fun s => (s.word, s)

theorem overlaps_iff (s t : Scope) : s.overlaps t = true ↔ ∃ d, s.admits d = true ∧ t.admits d = true := by
  simp only [overlaps, List.any_eq_true, Bool.and_eq_true]
  exact ⟨fun ⟨d, _, h⟩ => ⟨d, h⟩, fun ⟨d, h⟩ => ⟨d, Dialect.mem_all d, h⟩⟩

end Scope
end CAbi
