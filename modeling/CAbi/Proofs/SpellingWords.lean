import CAbi.Spelling.Grammar
/-!
# SpellingWords — what a text is read as

Every lexeme of a text is a star or a word, and every word is an identifier (`readAt_lexeme`).  So a lexeme and its text
determine each other (`Lexeme.Read`), and what is said of the words of a text can be said of its lexemes.
-/
namespace CAbi

/-- The word a base holds: a name or a tag. -/
def Base.word? : Base → Option String
  | .builtin name => some name
  | .named name => some name
  | .tagged _ tag => some tag
  | _ => none

namespace Spelling
namespace Lexeme

theorem text_ofWord (word : String) : (ofWord word).text = word := by
  unfold ofWord
  split
  · rename_i k hk
    have := List.find?_some hk
    exact eq_of_beq this
  · rfl

theorem eq_text_of_word? {l : Lexeme} {w : String} (h : l.word? = some w) : l.text = w := by
  cases l with
  | star => cases h
  | keyword k => exact Option.some.inj h
  | name s => exact Option.some.inj h

/-- The lexeme of a word or star. -/
def ofText (w : String) : Lexeme := if w = "*" then .star else .ofWord w

/-- **A lexeme as it comes from a text.** -/
structure Read (l : Lexeme) : Prop where
  ofText_text : ofText l.text = l
  valid : ∀ w ∈ l.word?, Identifier.valid w.toList = true

theorem ofText_of_valid {w : String} (h : Identifier.valid w.toList = true) : ofText w = .ofWord w := by
  have hne : w ≠ "*" := by
    rintro rfl
    exact absurd h (by decide)
  exact if_neg hne

theorem map_ofText_text {ls : List Lexeme} (h : ∀ l ∈ ls, l.Read) : (ls.map (·.text)).map ofText = ls := by
  rw [List.map_map]
  exact (List.map_congr_left fun l hl => (h l hl).ofText_text).trans (List.map_id ls)

end Lexeme

/-- **What one step reads**: a star, or a word that is an identifier. -/
theorem readAt_lexeme {column : Nat} {cs : List Char} {tok : Token} {rest : Cursor}
    (h : Cursor.readAt column cs = (.token tok, rest)) :
    tok.lexeme = .star ∨ ∃ w, Identifier.valid w.toList = true ∧ tok.lexeme = .ofWord w := by
  cases cs with
  | nil => cases h
  | cons ch cs =>
    simp only [Cursor.readAt] at h
    by_cases hstar : ch = '*'
    · rw [if_pos hstar] at h
      cases h
      exact .inl rfl
    · rw [if_neg hstar] at h
      by_cases hstart : Identifier.isStart ch = true
      · rw [if_pos hstart] at h
        cases h
        refine .inr ⟨_, ?_, rfl⟩
        rw [String.toList_ofList, Identifier.valid, Bool.and_eq_true]
        exact ⟨hstart, List.all_takeWhile⟩
      · rw [if_neg hstart] at h
        cases h

theorem readAt_read {column : Nat} {cs : List Char} {tok : Token} {rest : Cursor}
    (h : Cursor.readAt column cs = (.token tok, rest)) : tok.lexeme.Read := by
  rcases readAt_lexeme h with hstar | ⟨w, hvalid, hword⟩
  · rw [hstar]
    exact ⟨rfl, nofun⟩
  · rw [hword]
    refine ⟨?_, fun w' hw' => ?_⟩
    · rw [Lexeme.text_ofWord]
      exact Lexeme.ofText_of_valid hvalid
    · rw [← Lexeme.eq_text_of_word? hw', Lexeme.text_ofWord]
      exact hvalid

theorem tokens_read {c : Cursor} {ts : Tokens} (h : c.tokens = .ok ts) : ∀ l ∈ ts.list.map (·.lexeme), l.Read := by
  fun_induction Cursor.tokens c generalizing ts with
  | case1 c tok rest hstep ts' hrest ih =>
    cases h
    exact List.forall_mem_cons.2 ⟨readAt_read hstep, ih hrest⟩
  | case2 => cases h
  | case3 =>
    cases h
    exact List.forall_mem_nil _
  | case4 => cases h

end Spelling
end CAbi
