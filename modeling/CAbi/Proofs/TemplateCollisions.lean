import CAbi.Proofs.TemplateShape
/-!
# TemplateCollisions — which names a template cannot tell apart

The check of a template counts placeholders and tries one name.  That is enough to know what it makes of every other: an
accepted template is its placeholder between two texts of identifier characters, and the name goes where the placeholder
stands (`expand_of_accepted`).  So two names collide exactly if the placeholder makes one text of both: `{name}` of no
two names, `{NAME}` of those that differ in the case of letters only.
-/
namespace CAbi
namespace Template

/-- Upper case forgets the case of letters and nothing else. -/
theorem toUpper_eq_toUpper_iff {a b : String} : a.toUpper = b.toUpper ↔ a.toLower = b.toLower := by
  have hlower : ∀ s : String, s.toUpper.toLower = s.toLower := fun s => by
    have hcomp : Char.toLower ∘ Char.toUpper = Char.toLower := funext Identifier.toLower_toUpper
    exact String.map_map.trans (congrArg (String.map · s) hcomp)
  have hupper : ∀ s : String, s.toLower.toUpper = s.toUpper := fun s => by
    have hcomp : Char.toUpper ∘ Char.toLower = Char.toUpper := funext Identifier.toUpper_toLower
    exact String.map_map.trans (congrArg (String.map · s) hcomp)
  constructor
  · intro h
    rw [← hlower a, h, hlower]
  · intro h
    rw [← hupper a, h, hupper]

theorem surround_inj {before after a b : String} : before ++ a ++ after = before ++ b ++ after ↔ a = b := by
  simp only [← String.toList_inj, String.toList_append, List.append_assoc, List.append_right_inj, List.append_left_inj]

/-- **An accepted template makes of a name the text before its placeholder, the name or its upper case, and the text
after it.** -/
theorem expand_of_accepted {template : String} (h : GuardScheme.templateDefect? template = none) :
    ∃ before after : String, (∀ c ∈ before.toList ++ after.toList, Identifier.isRest c = true) ∧
      (template = before ++ "\x7bname\x7d" ++ after ∧
          (∀ name, '\x7b' ∉ name.toList → expand template name = before ++ name ++ after) ∨
        template = before ++ "\x7bNAME\x7d" ++ after ∧
          ∀ name, '\x7b' ∉ name.toList → expand template name = before ++ name.toUpper ++ after) := by
  obtain ⟨before, after, p, htemplate, hvalid, hexpand⟩ := expandChars_of_accepted h
  refine ⟨String.ofList before, String.ofList after, ?_, ?_⟩
  · intro c hc
    refine Identifier.all_isRest_of_valid hvalid c ?_
    simp only [String.toList_ofList, List.mem_append] at hc ⊢
    exact hc.imp_left .inl
  · cases p with
    | asWritten =>
      refine .inl ⟨?_, fun name hname => ?_⟩
      · simp only [← String.toList_inj, String.toList_append, String.toList_ofList]
        exact htemplate
      · rw [expand, hexpand name.toList hname, ← String.toList_inj]
        simp [Placeholder.letters]
    | inUpperCase =>
      refine .inr ⟨?_, fun name hname => ?_⟩
      · simp only [← String.toList_inj, String.toList_append, String.toList_ofList]
        exact htemplate
      · rw [expand, hexpand name.toList hname, ← String.toList_inj]
        simp [Placeholder.letters, upperCase, String.toUpper]

end Template

namespace GuardScheme

/-- **What an accepted template makes of names, and which names collide.**  Around its placeholder stand two texts of
identifier characters, and a name without braces goes between them, as it is or in upper case.  Identifiers become
identifiers.  Two of them become the same one only if they are the same, or, in upper case, the same up to the case of
letters. -/
theorem expand_eq_expand_iff_of_accepted {s : GuardScheme} (h : s.defects = []) {template : String}
    (hmem : template ∈ s.templates) :
    ∃ before after : String, (∀ c ∈ before.toList ++ after.toList, Identifier.isRest c = true) ∧
      (∀ name, Identifier.valid name.toList = true → Identifier.valid (Template.expand template name).toList = true) ∧
      (template = before ++ "\x7bname\x7d" ++ after ∧
          (∀ name, '\x7b' ∉ name.toList → Template.expand template name = before ++ name ++ after) ∧
          (∀ a b, Identifier.valid a.toList = true → Identifier.valid b.toList = true →
            (Template.expand template a = Template.expand template b ↔ a = b)) ∨
        template = before ++ "\x7bNAME\x7d" ++ after ∧
          (∀ name, '\x7b' ∉ name.toList → Template.expand template name = before ++ name.toUpper ++ after) ∧
          (∀ a b, Identifier.valid a.toList = true → Identifier.valid b.toList = true →
            (Template.expand template a = Template.expand template b ↔ a.toLower = b.toLower))) := by
  have haccepted := templateDefect?_eq_none h hmem
  obtain ⟨before, after, haround, hcases⟩ := Template.expand_of_accepted haccepted
  refine ⟨before, after, haround, fun name => Template.valid_expand haccepted, ?_⟩
  rcases hcases with ⟨htemplate, hexpand⟩ | ⟨htemplate, hexpand⟩
  · refine .inl ⟨htemplate, hexpand, fun a b ha hb => ?_⟩
    rw [hexpand a (Identifier.brace_not_mem ha), hexpand b (Identifier.brace_not_mem hb), Template.surround_inj]
  · refine .inr ⟨htemplate, hexpand, fun a b ha hb => ?_⟩
    rw [hexpand a (Identifier.brace_not_mem ha), hexpand b (Identifier.brace_not_mem hb), Template.surround_inj,
      Template.toUpper_eq_toUpper_iff]

/-- Under the default guards, `size_t` and `SIZE_T` share the alias and keep their own primary guard. -/
theorem expand_eq_expand_iff_of_accepted_default :
    let s : GuardScheme := {}
    let upper : String := "__CLANG_\x7bNAME\x7d_DEFINED"
    s.defects = [] ∧ s.primary ∈ s.templates ∧ upper ∈ s.templates ∧
    Template.expand s.primary "size_t" ≠ Template.expand s.primary "SIZE_T" ∧
    Template.expand upper "size_t" = Template.expand upper "SIZE_T" := by
  intro s upper
  have hdefects : s.defects = [] := by decide
  have hprimary : s.primary ∈ s.templates := by decide
  have hupper : upper ∈ s.templates := by decide
  refine ⟨hdefects, hprimary, hupper, ?_, ?_⟩
  · obtain ⟨before, after, -, -, ⟨-, -, hiff⟩ | ⟨htemplate, -⟩⟩ := expand_eq_expand_iff_of_accepted hdefects hprimary
    · rw [Ne, hiff _ _ (by decide) (by decide)]
      decide
    · have hmem : 'M' ∈ s.primary.toList := by simp [htemplate]
      exact absurd hmem (by decide)
  · obtain ⟨before, after, -, -, ⟨htemplate, -⟩ | ⟨-, -, hiff⟩⟩ := expand_eq_expand_iff_of_accepted hdefects hupper
    · have hmem : 'n' ∈ upper.toList := by simp [htemplate]
      exact absurd hmem (by decide)
    · rw [hiff _ _ (by decide) (by decide), ← String.toList_inj]
      show ("size_t".map Char.toLower).toList = ("SIZE_T".map Char.toLower).toList
      rw [String.toList_map, String.toList_map]
      decide

end GuardScheme
end CAbi
