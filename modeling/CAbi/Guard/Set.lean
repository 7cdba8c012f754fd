/-!
# Set — the guards defined so far

Guards are only ever added.  The set is a list without repetition, newest first; its size is the length of the list, and
`snapshot` is the list in the order of its code points, which forgets when each guard came.
-/
namespace CAbi

structure GuardSet where
  list : List String
  nodup : list.Nodup

namespace GuardSet

def empty : GuardSet := ⟨[], List.nodup_nil⟩

def contains (s : GuardSet) (g : String) : Bool := s.list.contains g

def containsAny (s : GuardSet) (gs : List String) : Bool := gs.any s.contains

def size (s : GuardSet) : Nat := s.list.length

/-- **One guard more**, unless it is there. -/
def insert (s : GuardSet) (g : String) : GuardSet :=
  if h : g ∈ s.list then s else ⟨g :: s.list, List.nodup_cons.2 ⟨h, s.nodup⟩⟩

def insertAll (s : GuardSet) (gs : List String) : GuardSet := gs.foldl insert s

/-- **The guards in order of code points.** -/
def snapshot (s : GuardSet) : List String := s.list.mergeSort fun a b => decide (a ≤ b)

theorem contains_iff {s : GuardSet} {g : String} : s.contains g = true ↔ g ∈ s.list := by
  simp [contains]

theorem mem_insert {s : GuardSet} {g x : String} : x ∈ (s.insert g).list ↔ x = g ∨ x ∈ s.list := by
  unfold insert
  split
  · rename_i h
    exact ⟨Or.inr, fun hx => hx.elim (fun e => e ▸ h) id⟩
  · exact List.mem_cons

theorem mem_insertAll {gs : List String} {s : GuardSet} {x : String} :
    x ∈ (s.insertAll gs).list ↔ x ∈ gs ∨ x ∈ s.list := by
  induction gs generalizing s with
  | nil => simp [insertAll]
  | cons g gs ih =>
    have h : s.insertAll (g :: gs) = (s.insert g).insertAll gs := rfl
    rw [h, ih, mem_insert, List.mem_cons]
    grind

theorem containsAny_iff {s : GuardSet} {gs : List String} : s.containsAny gs = true ↔ ∃ g ∈ gs, g ∈ s.list := by
  simp [containsAny, contains]

end GuardSet
end CAbi
