import Mathlib.Data.Finset.Card
import Mathlib.Order.Monotone.Basic
/-!
# Stages — a search that can only learn finitely many names

A bounded search is a family of answers, one for each number of steps it may take.  If more steps never take an answer
back, if only the names of a list can get an answer, and if a round in which nothing is learnt is followed by another
such, then as many rounds as the list is long learn everything: each round before the last learns a name, and there
are no more names than that.

Cycle search and layout both stop after as many steps as the table has entries; this is why they lose nothing by it.
-/
namespace CAbi

/-- **What a search knows after each number of rounds.** -/
structure Stages (names : List String) (known : Nat → String → Prop) : Prop where
  grows : ∀ n x, known n x → known (n + 1) x
  bounded : ∀ n x, known n x → x ∈ names
  settles : ∀ n, (∀ x, known (n + 1) x → known n x) → ∀ x, known (n + 2) x → known (n + 1) x

namespace Stages

variable {names : List String} {known : Nat → String → Prop}

theorem known_le (h : Stages names known) {m n : Nat} (hmn : m ≤ n) {x : String} (hx : known m x) : known n x := by
  induction n, hmn using Nat.le_induction with
  | base => exact hx
  | succ n _ ih => exact h.grows n x ih

/-- **As many rounds as there are names learn everything.** -/
theorem known_length (h : Stages names known) {n b : Nat} (hb : names.length ≤ b) {x : String} (hx : known n x) :
    known b x := by
  classical
  -- the number of names known after each round
  let found : Nat → Finset String := fun m => names.toFinset.filter (known m)
  have hmem : ∀ m y, y ∈ found m ↔ known m y := fun m y => by
    simp only [found, Finset.mem_filter, List.mem_toFinset]
    exact ⟨fun hy => hy.2, fun hy => ⟨h.bounded m y hy, hy⟩⟩
  have hsub : ∀ {m k}, m ≤ k → found m ⊆ found k := fun hmk y hy => (hmem _ y).2 (h.known_le hmk ((hmem _ y).1 hy))
  have hmono : Monotone fun m => (found m).card := fun m k hmk => Finset.card_le_card (hsub hmk)
  have hbound : ∀ m, (found m).card ≤ names.length := fun m =>
    (Finset.card_filter_le _ _).trans names.toFinset_card_le
  have hstab : ∀ m, (found m).card = (found (m + 1)).card → (found (m + 1)).card = (found (m + 2)).card := by
    intro m hm
    have heq : found m = found (m + 1) := Finset.eq_of_subset_of_card_le (hsub (Nat.le_succ m)) hm.ge
    have hlast : ∀ y, known (m + 1) y → known m y := fun y hy => (hmem m y).1 (heq ▸ (hmem (m + 1) y).2 hy)
    refine le_antisymm (hmono (Nat.le_succ _)) (Finset.card_le_card fun y hy => ?_)
    exact (hmem _ y).2 (h.settles m hlast y ((hmem _ y).1 hy))
  rcases le_total n b with hnb | hbn
  · exact h.known_le hnb hx
  · have hn := Nat.stabilises_of_monotone hmono hbound hstab (hb.trans hbn)
    have hb' := Nat.stabilises_of_monotone hmono hbound hstab hb
    have heq : found b = found n := Finset.eq_of_subset_of_card_le (hsub hbn) (hn.trans hb'.symm).le
    exact (hmem b x).1 (heq ▸ (hmem n x).2 hx)

end Stages
end CAbi
