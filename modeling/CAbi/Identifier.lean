/-!
# Identifier — the words of C

An identifier is an ASCII letter or underscore followed by ASCII letters, digits and underscores.  The type spellings
and the guard macros share this one definition.
-/
namespace CAbi
namespace Identifier

def isStart (c : Char) : Bool := c == '_' || c.isAlpha

def isRest (c : Char) : Bool := c == '_' || c.isAlphanum

def valid : List Char → Bool
  | [] => false
  | c :: cs => isStart c && cs.all isRest

theorem isRest_of_isStart {c : Char} (h : isStart c = true) : isRest c = true := by
  simp only [isStart, isRest, Char.isAlphanum, Bool.or_eq_true] at *
  exact h.imp id Or.inl

theorem all_isRest_of_valid {cs : List Char} (h : valid cs = true) : ∀ c ∈ cs, isRest c = true := by
  cases cs with
  | nil => cases h
  | cons c cs =>
    simp only [valid, Bool.and_eq_true, List.all_eq_true] at h
    exact List.forall_mem_cons.2 ⟨isRest_of_isStart h.1, h.2⟩

end Identifier
end CAbi
