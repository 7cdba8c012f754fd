import Mathlib.Data.List.Basic
import CAbi.Proofs.CodePoints
import CAbi.Proofs.Guards
import CAbi.Table.Check
/-!
# TemplateShape — what an accepted template makes of a name

Expansion replaces one placeholder over the whole text and then the other over the result, so a name could bring in
braces, and the text around it could close them.  An accepted template leaves no room for that: it holds one placeholder,
and what stands around it are characters of an identifier.  Such a template puts a fixed text before the name and a
fixed text after it (`expandChars_of_accepted`), and makes identifiers of identifiers (`valid_expand`).
-/
namespace CAbi

namespace Identifier

theorem not_mem_of_valid {cs : List Char} (h : valid cs = true) {c : Char} (hc : isRest c = false) : c ∉ cs := by
  intro hmem
  rw [all_isRest_of_valid h c hmem] at hc
  cases hc

theorem brace_not_mem {cs : List Char} (h : valid cs = true) : '\x7b' ∉ cs := not_mem_of_valid h (by decide)

end Identifier

namespace Template

/-! ## Replacement -/

theorem replaceFrom_eq_drop (mark text : List Char) : ∀ (skip : Nat) (cs : List Char),
    replaceFrom mark text skip cs = replaceFrom mark text 0 (cs.drop skip)
  | 0, _ => rfl
  | _ + 1, [] => rfl
  | skip + 1, _ :: cs => replaceFrom_eq_drop mark text skip cs

theorem replaceAll_of_occurrences_eq_zero {mark : List Char} (text : List Char) {cs : List Char}
    (h : occurrences mark cs = 0) : replaceAll mark text cs = cs := by
  induction cs with
  | nil => rfl
  | cons c cs ih =>
    rw [occurrences, Nat.add_eq_zero_iff] at h
    have hp : mark.isPrefixOf (c :: cs) = false := by
      by_contra hp
      rw [Bool.not_eq_false] at hp
      rw [if_pos hp] at h
      exact absurd h.1 Nat.one_ne_zero
    show (if mark.isPrefixOf (c :: cs) = true then _ else c :: replaceAll mark text cs) = c :: cs
    rw [if_neg (by rw [hp]; exact Bool.false_ne_true), ih h.2]

theorem occurrences_le_append_right (mark as bs : List Char) : occurrences mark bs ≤ occurrences mark (as ++ bs) := by
  induction as with
  | nil => exact Nat.le_refl _
  | cons a as ih =>
    rw [List.cons_append, occurrences]
    omega

theorem occurrences_le_append_left (mark as bs : List Char) : occurrences mark as ≤ occurrences mark (as ++ bs) := by
  induction as with
  | nil => exact Nat.zero_le _
  | cons a as ih =>
    rw [List.cons_append, occurrences, occurrences]
    have hp : mark.isPrefixOf (a :: as) = true → mark.isPrefixOf (a :: (as ++ bs)) = true := by
      intro h
      rw [List.isPrefixOf_iff_prefix] at h ⊢
      exact h.trans (List.prefix_append (a :: as) bs)
    split
    · rename_i h
      rw [if_pos (hp h)]
      omega
    · omega

/-- No occurrence passes over a character that is not in the mark. -/
theorem occurrences_append_cons {mark : List Char} (hne : mark ≠ []) {c : Char} (hc : c ∉ mark) (as bs : List Char) :
    occurrences mark (as ++ c :: bs) = occurrences mark as + occurrences mark bs := by
  have hprefix : ∀ as : List Char, mark.isPrefixOf (as ++ c :: bs) = mark.isPrefixOf as := by
    clear hne
    induction mark with
    | nil => intro as; rfl
    | cons m mark ih =>
      intro as
      rw [List.mem_cons, not_or] at hc
      cases as with
      | nil => simp [List.isPrefixOf, Ne.symm hc.1]
      | cons a as => simp only [List.cons_append, List.isPrefixOf, ih hc.2 as]
  induction as with
  | nil =>
    have hnil : mark.isPrefixOf (c :: bs) = false := by
      cases mark with
      | nil => exact absurd rfl hne
      | cons m mark => exact hprefix []
    show (if mark.isPrefixOf (c :: bs) = true then 1 else 0) + occurrences mark bs = 0 + occurrences mark bs
    rw [hnil]
    rfl
  | cons a as ih =>
    rw [List.cons_append, occurrences, occurrences, ih]
    have := hprefix (a :: as)
    rw [List.cons_append] at this
    rw [this, Nat.add_assoc]

/-- **A text with one occurrence of the mark is split by it**, and replacing puts the new text in its place. -/
theorem exists_split_of_occurrences_eq_one {mark : List Char} (hne : mark ≠ []) {cs : List Char}
    (h : occurrences mark cs = 1) :
    ∃ pre post, cs = pre ++ mark ++ post ∧ ∀ text, replaceAll mark text cs = pre ++ text ++ post := by
  induction cs with
  | nil => cases h
  | cons c cs ih =>
    rw [occurrences] at h
    by_cases hp : mark.isPrefixOf (c :: cs) = true
    · rw [if_pos hp] at h
      obtain ⟨post, hpost⟩ := List.isPrefixOf_iff_prefix.1 hp
      refine ⟨[], post, by rw [List.nil_append, hpost], fun text => ?_⟩
      have hdrop : cs.drop (mark.length - 1) = post := by
        cases mark with
        | nil => exact absurd rfl hne
        | cons m mark =>
          rw [List.cons_append, List.cons.injEq] at hpost
          rw [← hpost.2, List.length_cons, Nat.add_sub_cancel]
          exact List.drop_left
      have hzero : occurrences mark post = 0 := by
        have hle := occurrences_le_append_right mark (cs.take (mark.length - 1)) post
        rw [← hdrop, List.take_append_drop] at hle
        rw [← hdrop]
        omega
      have hstep : replaceAll mark text (c :: cs) = text ++ replaceFrom mark text (mark.length - 1) cs := if_pos hp
      rw [hstep, replaceFrom_eq_drop, hdrop, List.nil_append]
      exact congrArg _ (replaceAll_of_occurrences_eq_zero text hzero)
    · rw [if_neg hp, Nat.zero_add] at h
      obtain ⟨pre, post, hcs, hrep⟩ := ih h
      refine ⟨c :: pre, post, by rw [hcs]; rfl, fun text => ?_⟩
      have hstep : replaceAll mark text (c :: cs) = c :: replaceAll mark text cs := if_neg hp
      rw [hstep, hrep text]
      rfl

/-! ## Accepted templates -/

theorem occurrences_upperMark_eq_zero {cs : List Char} (h : '\x7b' ∉ cs) : occurrences upperMark cs = 0 := by
  induction cs with
  | nil => rfl
  | cons c cs ih =>
    rw [List.mem_cons, not_or] at h
    have hmark : upperMark = '\x7b' :: "NAME\x7d".toList := by decide
    have hp : ¬upperMark.isPrefixOf (c :: cs) = true := by
      rw [hmark, List.isPrefixOf_iff_prefix]
      rintro ⟨post, hpost⟩
      exact h.1 (List.cons.inj hpost).1
    rw [occurrences, ih h.2, if_neg hp]

theorem accepted_iff {template : String} :
    GuardScheme.templateDefect? template = none ↔
      occurrences lowerMark template.toList + occurrences upperMark template.toList = 1 ∧
        Identifier.valid (expandChars template.toList ['x']) = true := by
  unfold GuardScheme.templateDefect? hasOnePlaceholder makesIdentifier
  rw [← beq_iff_eq (a := occurrences lowerMark template.toList + occurrences upperMark template.toList)]
  cases occurrences lowerMark template.toList + occurrences upperMark template.toList == 1 <;>
    cases Identifier.valid (expandChars template.toList ['x']) <;> simp

/-- What stands around a `name` placeholder has no `NAME` placeholder, also not when an `x` takes its place. -/
theorem occurrences_upperMark_around {pre post : List Char}
    (h : occurrences upperMark (pre ++ lowerMark ++ post) = 0) : occurrences upperMark (pre ++ ['x'] ++ post) = 0 := by
  have hpre := occurrences_le_append_left upperMark pre (lowerMark ++ post)
  have hpost := occurrences_le_append_right upperMark (pre ++ lowerMark) post
  rw [← List.append_assoc] at hpre
  have hx := occurrences_append_cons (by decide : upperMark ≠ []) (by decide : 'x' ∉ upperMark) pre post
  rw [List.append_assoc, List.singleton_append, hx]
  omega

/-- **The two placeholders**, by what they stand for. -/
inductive Placeholder where
  | asWritten
  | inUpperCase

def Placeholder.mark : Placeholder → List Char
  | .asWritten => lowerMark
  | .inUpperCase => upperMark

/-- What takes the place of the placeholder. -/
def Placeholder.letters : Placeholder → List Char → List Char
  | .asWritten => id
  | .inUpperCase => upperCase

/-- **An accepted template is a placeholder in a fixed text**, and expansion puts the name, or its upper case, in the
place of the placeholder. -/
theorem expandChars_of_accepted {template : String} (h : GuardScheme.templateDefect? template = none) :
    ∃ (before after : List Char) (p : Placeholder), template.toList = before ++ p.mark ++ after ∧
      Identifier.valid (before ++ p.letters ['x'] ++ after) = true ∧
      ∀ name, '\x7b' ∉ name → expandChars template.toList name = before ++ p.letters name ++ after := by
  obtain ⟨hone, hvalid⟩ := accepted_iff.1 h
  rcases Nat.add_eq_one_iff.1 hone with ⟨hlower, hupper⟩ | ⟨hlower, hupper⟩
  · -- only the upper-case placeholder: the first replacement does nothing
    obtain ⟨pre, post, htemplate, hrep⟩ := exists_split_of_occurrences_eq_one (by decide) hupper
    have hexpand : ∀ name, expandChars template.toList name = pre ++ upperCase name ++ post := fun name => by
      rw [expandChars, replaceAll_of_occurrences_eq_zero name hlower, hrep]
    refine ⟨pre, post, .inUpperCase, htemplate, ?_, fun name _ => hexpand name⟩
    rw [hexpand] at hvalid
    exact hvalid
  · -- only the other one: the second replacement does nothing, as there are no braces left
    obtain ⟨pre, post, htemplate, hrep⟩ := exists_split_of_occurrences_eq_one (by decide) hlower
    have hsample : expandChars template.toList ['x'] = pre ++ ['x'] ++ post := by
      rw [htemplate] at hupper
      rw [expandChars, hrep, replaceAll_of_occurrences_eq_zero _ (occurrences_upperMark_around hupper)]
    rw [hsample] at hvalid
    refine ⟨pre, post, .asWritten, htemplate, hvalid, fun name hname => ?_⟩
    have hbrace := Identifier.brace_not_mem hvalid
    have hnone : '\x7b' ∉ pre ++ name ++ post := by
      simp only [List.mem_append, not_or] at hbrace ⊢
      exact ⟨⟨hbrace.1.1, hname⟩, hbrace.2⟩
    rw [expandChars, hrep, replaceAll_of_occurrences_eq_zero _ (occurrences_upperMark_eq_zero hnone)]
    rfl

theorem valid_letters (p : Placeholder) {name : List Char} (hname : Identifier.valid name = true) :
    Identifier.valid (p.letters name) = true := by
  cases p with
  | asWritten => exact hname
  | inUpperCase =>
    cases name with
    | nil => cases hname
    | cons c cs =>
      simp only [Identifier.valid, Bool.and_eq_true, List.all_eq_true] at hname
      simp only [Placeholder.letters, upperCase, List.map_cons, Identifier.valid, Bool.and_eq_true, List.all_eq_true]
      refine ⟨Identifier.isStart_toUpper hname.1, fun x hx => ?_⟩
      obtain ⟨y, hy, rfl⟩ := List.mem_map.1 hx
      exact Identifier.isRest_toUpper (hname.2 y hy)

/-- An identifier stays one when a part of it is replaced by an identifier. -/
theorem valid_replace {before after xs ys : List Char} (h : Identifier.valid (before ++ xs ++ after) = true)
    (hys : Identifier.valid ys = true) : Identifier.valid (before ++ ys ++ after) = true := by
  have hrest := Identifier.all_isRest_of_valid h
  have hys' := Identifier.all_isRest_of_valid hys
  have hafter : ∀ c ∈ after, Identifier.isRest c = true := fun c hc => hrest c (List.mem_append_right _ hc)
  cases before with
  | nil =>
    cases ys with
    | nil => cases hys
    | cons y ys =>
      simp only [Identifier.valid, Bool.and_eq_true, List.all_eq_true] at hys
      simp only [List.nil_append, List.cons_append, Identifier.valid, Bool.and_eq_true, List.all_eq_true]
      exact ⟨hys.1, fun c hc => (List.mem_append.1 hc).elim (hys.2 c) (hafter c)⟩
  | cons b before =>
    simp only [List.cons_append, Identifier.valid, Bool.and_eq_true, List.all_eq_true] at h ⊢
    refine ⟨h.1, fun c hc => ?_⟩
    rcases List.mem_append.1 hc with hc | hc
    · rcases List.mem_append.1 hc with hc | hc
      · exact h.2 c (List.mem_append_left _ (List.mem_append_left _ hc))
      · exact hys' c hc
    · exact hafter c hc

/-- **An accepted template makes identifiers of identifiers.** -/
theorem valid_expand {template : String} (h : GuardScheme.templateDefect? template = none) {name : String}
    (hname : Identifier.valid name.toList = true) : Identifier.valid (expand template name).toList = true := by
  obtain ⟨before, after, p, -, hvalid, hexpand⟩ := expandChars_of_accepted h
  rw [expand, String.toList_ofList, hexpand _ (Identifier.brace_not_mem hname)]
  exact valid_replace hvalid (valid_letters p hname)

end Template

namespace GuardScheme

theorem templateDefect?_eq_none {s : GuardScheme} (h : s.defects = []) {template : String}
    (hmem : template ∈ s.templates) : templateDefect? template = none :=
  List.filterMap_eq_nil_iff.1 h template hmem

theorem valid_needFor {s : GuardScheme} (h : s.defects = []) {name : String}
    (hname : Identifier.valid name.toList = true) : Identifier.valid (s.needFor name).toList = true :=
  Template.valid_expand (templateDefect?_eq_none h (by simp [templates])) hname

/-- **The guards of an entry are identifiers**, if its name and its own aliases are. -/
theorem valid_of_mem_guardsOf {s : GuardScheme} (h : s.defects = []) {e : Entry}
    (hname : Identifier.valid e.name.toList = true)
    (hextra : ∀ g ∈ e.extraAliases, Identifier.valid g.toList = true) :
    ∀ g ∈ s.guardsOf e, Identifier.valid g.toList = true := by
  intro g hg
  rcases mem_guardsOf.1 hg with rfl | ⟨-, hg⟩ | hg
  · exact Template.valid_expand (templateDefect?_eq_none h (by simp [templates])) hname
  · obtain ⟨template, htemplate, rfl⟩ := List.mem_map.1 hg
    exact Template.valid_expand (templateDefect?_eq_none h (by simp [templates, htemplate])) hname
  · exact hextra g hg

end GuardScheme
end CAbi
