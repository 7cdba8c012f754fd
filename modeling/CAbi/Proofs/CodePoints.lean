import CAbi.Identifier
/-!
# CodePoints — the characters of identifiers as numbers

Letters, digits and the underscore are ranges of code points, and a change of case moves one range of letters onto the
other.  In numbers what is said about single characters is arithmetic.
-/
namespace CAbi
namespace Identifier

theorem isDigit_iff {c : Char} : c.isDigit = true ↔ 48 ≤ c.toNat ∧ c.toNat ≤ 57 :=
  Bool.and_eq_true_iff.trans (and_congr decide_eq_true_iff decide_eq_true_iff)

theorem isAlpha_iff {c : Char} :
    c.isAlpha = true ↔ 65 ≤ c.toNat ∧ c.toNat ≤ 90 ∨ 97 ≤ c.toNat ∧ c.toNat ≤ 122 := by
  have hupper : c.isUpper = true ↔ 65 ≤ c.toNat ∧ c.toNat ≤ 90 := decide_eq_true_iff
  have hlower : c.isLower = true ↔ 97 ≤ c.toNat ∧ c.toNat ≤ 122 :=
    Bool.and_eq_true_iff.trans (and_congr decide_eq_true_iff decide_eq_true_iff)
  rw [← hupper, ← hlower]
  exact Bool.or_eq_true_iff

theorem isStart_iff {c : Char} :
    isStart c = true ↔ c.toNat = 95 ∨ 65 ≤ c.toNat ∧ c.toNat ≤ 90 ∨ 97 ≤ c.toNat ∧ c.toNat ≤ 122 := by
  have hunderscore : c = '_' ↔ c.toNat = 95 := Char.toNat_inj.symm
  rw [isStart, Bool.or_eq_true, beq_iff_eq, isAlpha_iff, hunderscore]

theorem isRest_iff {c : Char} : isRest c = true ↔ isStart c = true ∨ 48 ≤ c.toNat ∧ c.toNat ≤ 57 := by
  have halphanum : c.isAlphanum = true ↔ c.isAlpha = true ∨ c.isDigit = true := Bool.or_eq_true_iff
  rw [isRest, isStart, Bool.or_eq_true, Bool.or_eq_true, halphanum, isDigit_iff, or_assoc]

/-! ## Case -/

theorem toNat_toUpper (c : Char) :
    c.toUpper.toNat = if 97 ≤ c.toNat ∧ c.toNat ≤ 122 then c.toNat - 32 else c.toNat := by
  by_cases h : 'a'.val ≤ c.val ∧ c.val ≤ 'z'.val
  · have hrange : 97 ≤ c.toNat ∧ c.toNat ≤ 122 := h
    have hval : c.toUpper.val = c.val + ('A'.val - 'a'.val) := by
      unfold Char.toUpper
      rw [dif_pos h]
    -- the distance from small letters to capitals is negative, so the sum of words wraps around
    have hshift : ('A'.val - 'a'.val).toNat = 2 ^ 32 - 32 := by decide
    have hnat : c.toUpper.toNat = (c.toNat + (2 ^ 32 - 32)) % 2 ^ 32 := by
      rw [← hshift, Char.toNat, hval]
      exact UInt32.toNat_add _ _
    rw [if_pos hrange, hnat]
    omega
  · have hrange : ¬(97 ≤ c.toNat ∧ c.toNat ≤ 122) := h
    have hsame : c.toUpper = c := dif_neg h
    rw [if_neg hrange, hsame]

theorem toNat_toLower (c : Char) :
    c.toLower.toNat = if 65 ≤ c.toNat ∧ c.toNat ≤ 90 then c.toNat + 32 else c.toNat := by
  by_cases h : c.val ≥ 'A'.val ∧ c.val ≤ 'Z'.val
  · have hrange : 65 ≤ c.toNat ∧ c.toNat ≤ 90 := h
    have hval : c.toLower.val = c.val + ('a'.val - 'A'.val) := by
      unfold Char.toLower
      rw [dif_pos h]
    have hshift : ('a'.val - 'A'.val).toNat = 32 := by decide
    have hnat : c.toLower.toNat = (c.toNat + 32) % 2 ^ 32 := by
      rw [← hshift, Char.toNat, hval]
      exact UInt32.toNat_add _ _
    rw [if_pos hrange, hnat]
    omega
  · have hrange : ¬(65 ≤ c.toNat ∧ c.toNat ≤ 90) := h
    have hsame : c.toLower = c := dif_neg h
    rw [if_neg hrange, hsame]

theorem isStart_toUpper {c : Char} (h : isStart c = true) : isStart c.toUpper = true := by
  rw [isStart_iff] at h ⊢
  rw [toNat_toUpper]
  split <;> omega

theorem isRest_toUpper {c : Char} (h : isRest c = true) : isRest c.toUpper = true := by
  rw [isRest_iff] at h ⊢
  refine h.imp isStart_toUpper fun hdigit => ?_
  rw [toNat_toUpper]
  split <;> omega

theorem toLower_toUpper (c : Char) : c.toUpper.toLower = c.toLower := by
  rw [← Char.toNat_inj, toNat_toLower, toNat_toLower, toNat_toUpper]
  grind

theorem toUpper_toLower (c : Char) : c.toLower.toUpper = c.toUpper := by
  rw [← Char.toNat_inj, toNat_toUpper, toNat_toUpper, toNat_toLower]
  grind

end Identifier
end CAbi
