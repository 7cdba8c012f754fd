import CAbi.Proofs.SpellingWords
/-!
# SpellingGrammar — the grammar of type spellings, and that reading accepts it exactly

    spelling = volatile* base (* volatile*)*
    base     = [unsigned | signed] integer | unsigned | signed | float | double | long double | void
             | (struct | union) identifier | name
    integer  = char | short [int] | int | long [int] | long long [int] | _Addr | _Int64 | _Reg

The grammar is stated on the words of a text, each production with the type it means (`Spells`).  It knows nothing of
keywords as constructors, of what is read first, or of how far a reader looks ahead.

The reader is greedy: it takes the longest integer it can, and leaves what it did not take to whoever comes next.  Going
from reader to grammar, each part is what stood in front of what it left (`takeBase_sound`).  Going back, a part is only
found again if what follows cannot extend it, and what follows a base is a star or nothing (`takeBase_complete`).
-/
namespace CAbi
namespace Spelling

/-! ## The grammar -/

/-- **The words that are no names.** -/
def reservedWords : List String :=
  ["volatile", "unsigned", "signed", "char", "short", "int", "long", "float", "double", "void", "struct", "union",
   "_Addr", "_Int64", "_Reg"]

/-- **A name**: an identifier that is not reserved. -/
def IsName (w : String) : Prop := Identifier.valid w.toList = true ∧ w ∉ reservedWords

instance (w : String) : Decidable (IsName w) := inferInstanceAs (Decidable (_ ∧ _))

/-- Any number of `volatile`, and whether there was one. -/
inductive Qualifiers : List String → Bool → Prop where
  | none : Qualifiers [] false
  | volatile {ws : List String} {v : Bool} : Qualifiers ws v → Qualifiers ("volatile" :: ws) true

/-- The integer kinds, with the optional words. -/
inductive Integer : List String → ScalarKind → Prop where
  | char : Integer ["char"] .char
  | short : Integer ["short"] .short
  | shortInt : Integer ["short", "int"] .short
  | int : Integer ["int"] .int
  | long : Integer ["long"] .long
  | longInt : Integer ["long", "int"] .long
  | longLong : Integer ["long", "long"] .longLong
  | longLongInt : Integer ["long", "long", "int"] .longLong
  | addr : Integer ["_Addr"] .addr
  | int64 : Integer ["_Int64"] .int64
  | reg : Integer ["_Reg"] .reg

inductive SignWord : String → Sign → Prop where
  | unsigned : SignWord "unsigned" .unsigned
  | signed : SignWord "signed" .signed

/-- **What stands under the pointer levels.** -/
inductive BaseSpelling : List String → Base → Prop where
  | integer {ws : List String} {kind : ScalarKind} :
      Integer ws kind → BaseSpelling ws (.scalar ⟨kind, .plain, false⟩)
  | signedInteger {w : String} {sign : Sign} {ws : List String} {kind : ScalarKind} :
      SignWord w sign → Integer ws kind → BaseSpelling (w :: ws) (.scalar ⟨kind, sign, false⟩)
  /-- A lone sign keyword means `int`. -/
  | sign {w : String} {sign : Sign} : SignWord w sign → BaseSpelling [w] (.scalar ⟨.int, sign, true⟩)
  | float : BaseSpelling ["float"] (.scalar ⟨.float, .plain, false⟩)
  | double : BaseSpelling ["double"] (.scalar ⟨.double, .plain, false⟩)
  | longDouble : BaseSpelling ["long", "double"] (.scalar ⟨.longDouble, .plain, false⟩)
  | void : BaseSpelling ["void"] .void
  /-- Any identifier can be a tag, reserved or not. -/
  | struct {tag : String} : Identifier.valid tag.toList = true → BaseSpelling ["struct", tag] (.tagged .struct tag)
  | union {tag : String} : Identifier.valid tag.toList = true → BaseSpelling ["union", tag] (.tagged .union tag)
  | builtin {w : String} : IsName w → "__builtin_".toList <+: w.toList → BaseSpelling [w] (.builtin w)
  | named {w : String} : IsName w → ¬"__builtin_".toList <+: w.toList → BaseSpelling [w] (.named w)

/-- **Pointer levels**, the one next to the base first; what follows a star qualifies that pointer. -/
inductive Levels : List String → List Bool → Prop where
  | none : Levels [] []
  | level {qs ws : List String} {v : Bool} {vs : List Bool} :
      Qualifiers qs v → Levels ws vs → Levels ("*" :: (qs ++ ws)) (v :: vs)

/-- **The words spell the type.** -/
inductive Spells : List String → CType → Prop where
  | spelling {qs bs ls : List String} {base : Base} {isVolatile : Bool} {pointers : List Bool} :
      Qualifiers qs isVolatile → BaseSpelling bs base → Levels ls pointers →
        Spells (qs ++ bs ++ ls) ⟨base, isVolatile, pointers⟩

theorem Spells.base {ws : List String} {type : CType} (h : Spells ws type) : ∃ bs, BaseSpelling bs type.base := by
  cases h with
  | spelling hq hbase hlevels => exact ⟨_, hbase⟩

/-! ## Names among the lexemes -/

theorem Keyword.ofText?_eq_none_iff {w : String} : Keyword.ofText? w = none ↔ w ∉ reservedWords := by
  have hwords : reservedWords = Keyword.all.map (·.text) := rfl
  rw [hwords, Keyword.ofText?, List.find?_eq_none, List.mem_map]
  simp only [beq_iff_eq, not_exists, not_and]

theorem Lexeme.ofText_of_isName {w : String} (h : IsName w) : Lexeme.ofText w = .name w := by
  rw [Lexeme.ofText_of_valid h.1, Lexeme.ofWord, Keyword.ofText?_eq_none_iff.2 h.2]

theorem isName_of_read {w : String} (h : (Lexeme.name w).Read) : IsName w := by
  have hvalid : Identifier.valid w.toList = true := h.valid w rfl
  have hword : Lexeme.ofWord w = .name w := (Lexeme.ofText_of_valid hvalid).symm.trans h.ofText_text
  refine ⟨hvalid, Keyword.ofText?_eq_none_iff.1 ?_⟩
  unfold Lexeme.ofWord at hword
  split at hword
  · cases hword
  · assumption

/-! ## From the reader to the grammar -/

theorem takeVolatiles_sound (ls : List Lexeme) :
    ∃ qs, ls = qs ++ (takeVolatiles ls).2 ∧ Qualifiers (qs.map (·.text)) (takeVolatiles ls).1 := by
  fun_induction takeVolatiles ls with
  | case1 ls ih =>
    obtain ⟨qs, hqs, hq⟩ := ih
    exact ⟨.keyword .volatile :: qs, congrArg _ hqs, .volatile hq⟩
  | case2 ls => exact ⟨[], rfl, .none⟩

theorem skipInt_cases (ls : List Lexeme) : ls = skipInt ls ∨ ls = .keyword .int :: skipInt ls := by
  unfold skipInt
  split
  · exact .inr rfl
  · exact .inl rfl

theorem takeInteger?_sound {ls rest : List Lexeme} {kind : ScalarKind} (h : takeInteger? ls = some (kind, rest)) :
    ∃ ws, ls = ws ++ rest ∧ Integer (ws.map (·.text)) kind := by
  unfold takeInteger? at h
  split at h
  · cases h; exact ⟨[.keyword .char], rfl, .char⟩
  · rename_i ls
    cases h
    rcases skipInt_cases ls with hs | hs
    · exact ⟨[.keyword .short], congrArg _ hs, .short⟩
    · exact ⟨[.keyword .short, .keyword .int], congrArg _ hs, .shortInt⟩
  · cases h; exact ⟨[.keyword .int], rfl, .int⟩
  · rename_i ls
    cases h
    rcases skipInt_cases ls with hs | hs
    · exact ⟨[.keyword .long, .keyword .long], congrArg (_ :: _ :: ·) hs, .longLong⟩
    · exact ⟨[.keyword .long, .keyword .long, .keyword .int], congrArg (_ :: _ :: ·) hs, .longLongInt⟩
  · rename_i ls _
    cases h
    rcases skipInt_cases ls with hs | hs
    · exact ⟨[.keyword .long], congrArg _ hs, .long⟩
    · exact ⟨[.keyword .long, .keyword .int], congrArg _ hs, .longInt⟩
  · cases h; exact ⟨[.keyword .addr], rfl, .addr⟩
  · cases h; exact ⟨[.keyword .int64], rfl, .int64⟩
  · cases h; exact ⟨[.keyword .reg], rfl, .reg⟩
  · cases h

theorem takeTag_sound {kind : AggregateKind} {ls rest : List Lexeme} {b : Base} (hread : ∀ l ∈ ls, l.Read)
    (h : takeTag kind ls = .ok (b, rest)) :
    ∃ l, ls = l :: rest ∧ Identifier.valid l.text.toList = true ∧ b = .tagged kind l.text := by
  unfold takeTag at h
  split at h
  · cases h
    exact ⟨_, rfl, (hread _ List.mem_cons_self).valid _ rfl, rfl⟩
  · cases h
    exact ⟨_, rfl, (hread _ List.mem_cons_self).valid _ rfl, rfl⟩
  · cases h

theorem baseOfName_of_mark {w : String} (h : "__builtin_".toList <+: w.toList) : baseOfName w = .builtin w :=
  if_pos (List.isPrefixOf_iff_prefix.2 h)

theorem baseOfName_of_no_mark {w : String} (h : ¬"__builtin_".toList <+: w.toList) : baseOfName w = .named w :=
  if_neg fun hmark => h (List.isPrefixOf_iff_prefix.1 hmark)

theorem baseSpelling_baseOfName {w : String} (h : IsName w) : BaseSpelling [w] (baseOfName w) := by
  by_cases hmark : "__builtin_".toList <+: w.toList
  · rw [baseOfName_of_mark hmark]
    exact .builtin h hmark
  · rw [baseOfName_of_no_mark hmark]
    exact .named h hmark

theorem takeOther_sound {ls rest : List Lexeme} {b : Base} (hread : ∀ l ∈ ls, l.Read)
    (h : takeOther ls = .ok (b, rest)) : ∃ bs, ls = bs ++ rest ∧ BaseSpelling (bs.map (·.text)) b := by
  unfold takeOther at h
  split at h
  · cases h; exact ⟨[.keyword .float], rfl, .float⟩
  · cases h; exact ⟨[.keyword .double], rfl, .double⟩
  · cases h; exact ⟨[.keyword .void], rfl, .void⟩
  · obtain ⟨l, rfl, hvalid, rfl⟩ := takeTag_sound (fun l hl => hread l (List.mem_cons_of_mem _ hl)) h
    exact ⟨[.keyword .struct, l], rfl, .struct hvalid⟩
  · obtain ⟨l, rfl, hvalid, rfl⟩ := takeTag_sound (fun l hl => hread l (List.mem_cons_of_mem _ hl)) h
    exact ⟨[.keyword .union, l], rfl, .union hvalid⟩
  · rename_i w ls
    cases h
    exact ⟨[.name w], rfl, baseSpelling_baseOfName (isName_of_read (hread _ List.mem_cons_self))⟩
  · cases h

theorem takePlain_sound {ls rest : List Lexeme} {b : Base} (hread : ∀ l ∈ ls, l.Read)
    (h : takePlain ls = .ok (b, rest)) : ∃ bs, ls = bs ++ rest ∧ BaseSpelling (bs.map (·.text)) b := by
  unfold takePlain at h
  split at h
  · cases h
    exact ⟨[.keyword .long, .keyword .double], rfl, .longDouble⟩
  · split at h
    · rename_i hint
      cases h
      obtain ⟨ws, hws, hinteger⟩ := takeInteger?_sound hint
      exact ⟨ws, hws, .integer hinteger⟩
    · exact takeOther_sound hread h

theorem takeSigned_sound {l : Lexeme} {sign : Sign} (hsign : SignWord l.text sign) {ls rest : List Lexeme} {b : Base}
    (h : takeSigned sign ls = .ok (b, rest)) : ∃ bs, l :: ls = bs ++ rest ∧ BaseSpelling (bs.map (·.text)) b := by
  unfold takeSigned at h
  split at h
  · rename_i hint
    cases h
    obtain ⟨ws, hws, hinteger⟩ := takeInteger?_sound hint
    exact ⟨l :: ws, congrArg _ hws, .signedInteger hsign hinteger⟩
  · split at h
    · cases h
    · cases h
      exact ⟨[l], rfl, .sign hsign⟩

/-- **A base that was read is what stood in front of what was left.** -/
theorem takeBase_sound {ls rest : List Lexeme} {b : Base} (hread : ∀ l ∈ ls, l.Read)
    (h : takeBase ls = .ok (b, rest)) : ∃ bs, ls = bs ++ rest ∧ BaseSpelling (bs.map (·.text)) b := by
  unfold takeBase takeSign at h
  split at h
  · rename_i ls' hsign
    split at hsign
    · cases hsign
    · cases hsign
    · cases hsign
      exact takePlain_sound hread h
  · rename_i sign ls' hplain hsign
    split at hsign
    · cases hsign
      exact takeSigned_sound (l := .keyword .unsigned) .unsigned h
    · cases hsign
      exact takeSigned_sound (l := .keyword .signed) .signed h
    · cases hsign
      exact (hplain rfl).elim

/-- From a level whose star is read, with `v` for the qualifiers read so far. -/
theorem takeLevels_sound (v : Bool) (ls : List Lexeme) :
    ∃ qs ws v' vs, ls = qs ++ ws ++ (takeLevels v ls).2 ∧ Qualifiers (qs.map (·.text)) v' ∧
      Levels (ws.map (·.text)) vs ∧ (takeLevels v ls).1 = (v || v') :: vs := by
  fun_induction takeLevels v ls with
  | case1 v ls ih =>
    obtain ⟨qs, ws, v', vs, hls, hq, hlevels, heq⟩ := ih
    refine ⟨.keyword .volatile :: qs, ws, true, vs, congrArg _ hls, .volatile hq, hlevels, ?_⟩
    rw [heq, Bool.true_or, Bool.or_true]
  | case2 v ls above ih =>
    obtain ⟨qs, ws, v', vs, hls, hq, hlevels, heq⟩ := ih
    refine ⟨[], .star :: (qs ++ ws), false, v' :: vs, congrArg _ hls, .none, ?_, ?_⟩
    · rw [List.map_cons, List.map_append]
      exact .level hq hlevels
    · rw [Bool.or_false, ← Bool.false_or v']
      exact congrArg _ heq
  | case3 v ls => exact ⟨[], [], false, [], rfl, .none, .none, by rw [Bool.or_false]⟩

theorem takePointers_sound (ls : List Lexeme) :
    ∃ ws, ls = ws ++ (takePointers ls).2 ∧ Levels (ws.map (·.text)) (takePointers ls).1 := by
  unfold takePointers
  split
  · rename_i ls
    obtain ⟨qs, ws, v', vs, hls, hq, hlevels, heq⟩ := takeLevels_sound false ls
    refine ⟨.star :: (qs ++ ws), congrArg _ hls, ?_⟩
    rw [heq, Bool.false_or, List.map_cons, List.map_append]
    exact .level hq hlevels
  · exact ⟨[], rfl, .none⟩

theorem mem_of_mem_takeVolatiles {ls : List Lexeme} {l : Lexeme} (h : l ∈ (takeVolatiles ls).2) : l ∈ ls := by
  fun_induction takeVolatiles ls with
  | case1 ls ih => exact List.mem_cons_of_mem _ (ih h)
  | case2 => exact h

theorem readType_sound {ls : List Lexeme} {type : CType} (hread : ∀ l ∈ ls, l.Read) (h : readType ls = .ok type) :
    Spells (ls.map (·.text)) type := by
  obtain ⟨qs, hqs, hq⟩ := takeVolatiles_sound ls
  unfold readType at h
  split at h
  · cases h
  · rename_i base ls' hbase
    have hread' : ∀ l ∈ (takeVolatiles ls).2, l.Read := fun l hl => hread l (mem_of_mem_takeVolatiles hl)
    obtain ⟨bs, hbs, hb⟩ := takeBase_sound hread' hbase
    obtain ⟨ws, hws, hlevels⟩ := takePointers_sound ls'
    split at h
    · rename_i pointers hpointers
      cases h
      rw [hpointers] at hws hlevels
      have hls : ls = qs ++ bs ++ ws := by
        rw [hqs, hbs, hws, List.append_nil, List.append_assoc]
      rw [hls, List.map_append, List.map_append, ← hls]
      exact .spelling hq hb hlevels
    · cases h

/-! ## From the grammar to the reader -/

/-- **Nothing here can extend a base**: a star, or the end. -/
def EndsBase (ls : List Lexeme) : Prop := ls = [] ∨ ∃ rest, ls = .star :: rest

theorem takeVolatiles_of_ne {l : Lexeme} (h : l ≠ .keyword .volatile) (ls : List Lexeme) :
    takeVolatiles (l :: ls) = (false, l :: ls) := by
  unfold takeVolatiles
  split
  · rename_i heq
    exact absurd (List.cons.inj heq).1 h
  · rfl

theorem takeVolatiles_complete {qs : List String} {v : Bool} (h : Qualifiers qs v) {l : Lexeme}
    (hl : l ≠ .keyword .volatile) (ls : List Lexeme) :
    takeVolatiles (qs.map Lexeme.ofText ++ l :: ls) = (v, l :: ls) := by
  induction h with
  | none => exact takeVolatiles_of_ne hl ls
  | volatile hq ih => exact congrArg (fun p => (true, p.2)) ih

/-- A base begins with a word of its own. -/
theorem baseSpelling_head {bs : List String} {b : Base} (h : BaseSpelling bs b) :
    ∃ l ls, bs.map Lexeme.ofText = l :: ls ∧ l ≠ .keyword .volatile := by
  have hname : ∀ {w}, IsName w → ∃ l ls, [w].map Lexeme.ofText = l :: ls ∧ l ≠ .keyword .volatile := fun {w} hw =>
    ⟨.name w, [], congrArg (· :: []) (Lexeme.ofText_of_isName hw), nofun⟩
  cases h with
  | integer hi => cases hi <;> exact ⟨_, _, rfl, nofun⟩
  | signedInteger hs hi => cases hs <;> exact ⟨_, _, rfl, nofun⟩
  | sign hs => cases hs <;> exact ⟨_, _, rfl, nofun⟩
  | builtin hw hmark => exact hname hw
  | named hw hmark => exact hname hw
  | _ => exact ⟨_, _, rfl, nofun⟩

theorem takeTag_complete (kind : AggregateKind) {tag : String} (h : Identifier.valid tag.toList = true)
    (rest : List Lexeme) : takeTag kind (Lexeme.ofText tag :: rest) = .ok (.tagged kind tag, rest) := by
  have htext := Lexeme.text_ofWord tag
  rw [Lexeme.ofText_of_valid h]
  unfold Lexeme.ofWord at htext ⊢
  split at htext
  · exact congrArg (fun s => Except.ok (Base.tagged kind s, rest)) htext
  · rfl

theorem takeBase_name {w : String} (h : IsName w) (rest : List Lexeme) :
    takeBase ([w].map Lexeme.ofText ++ rest) = .ok (baseOfName w, rest) := by
  rw [List.map_singleton, Lexeme.ofText_of_isName h]
  rfl

/-- **A base is found again**, if what follows cannot extend it. -/
theorem takeBase_complete {bs : List String} {b : Base} (h : BaseSpelling bs b) {rest : List Lexeme}
    (hrest : EndsBase rest) : takeBase (bs.map Lexeme.ofText ++ rest) = .ok (b, rest) := by
  cases h with
  | struct htag => exact takeTag_complete .struct htag rest
  | union htag => exact takeTag_complete .union htag rest
  | builtin hw hmark => rw [takeBase_name hw, baseOfName_of_mark hmark]
  | named hw hmark => rw [takeBase_name hw, baseOfName_of_no_mark hmark]
  | integer hi => rcases hrest with rfl | ⟨rest, rfl⟩ <;> cases hi <;> rfl
  | signedInteger hs hi => rcases hrest with rfl | ⟨rest, rfl⟩ <;> cases hs <;> cases hi <;> rfl
  | sign hs => rcases hrest with rfl | ⟨rest, rfl⟩ <;> cases hs <;> rfl
  | _ => rfl

theorem takeLevels_qualifiers {qs : List String} {v' : Bool} (h : Qualifiers qs v') (v : Bool) (ls : List Lexeme) :
    takeLevels v (qs.map Lexeme.ofText ++ ls) = takeLevels (v || v') ls := by
  induction h generalizing v with
  | none => rw [Bool.or_false]; rfl
  | volatile hq ih =>
    rw [Bool.or_true, ← Bool.true_or]
    exact ih true

theorem takeLevels_complete {ws : List String} {vs : List Bool} (h : Levels ws vs) (v : Bool) :
    takeLevels v (ws.map Lexeme.ofText) = (v :: vs, []) := by
  induction h generalizing v with
  | none => rfl
  | @level qs ws v' vs hq hlevels ih =>
    have habove : takeLevels false ((qs ++ ws).map Lexeme.ofText) = (v' :: vs, []) := by
      rw [List.map_append, takeLevels_qualifiers hq, Bool.false_or, ih]
    exact congrArg (fun above => (v :: above.1, above.2)) habove

theorem takePointers_complete {ws : List String} {vs : List Bool} (h : Levels ws vs) :
    takePointers (ws.map Lexeme.ofText) = (vs, []) := by
  cases h with
  | none => rfl
  | @level qs ws v vs hq hlevels =>
    show takeLevels false ((qs ++ ws).map Lexeme.ofText) = (v :: vs, [])
    rw [List.map_append, takeLevels_qualifiers hq, Bool.false_or, takeLevels_complete hlevels]

theorem endsBase_levels {ws : List String} {vs : List Bool} (h : Levels ws vs) : EndsBase (ws.map Lexeme.ofText) := by
  cases h with
  | none => exact .inl rfl
  | level hq hlevels => exact .inr ⟨_, rfl⟩

theorem readType_complete {ws : List String} {type : CType} (h : Spells ws type) :
    readType (ws.map Lexeme.ofText) = .ok type := by
  obtain ⟨hq, hb, hlevels⟩ := h
  rename_i qs bs ls base isVolatile pointers
  obtain ⟨l, bs', hbs, hl⟩ := baseSpelling_head hb
  have hvolatiles : takeVolatiles ((qs ++ bs ++ ls).map Lexeme.ofText) =
      (isVolatile, bs.map Lexeme.ofText ++ ls.map Lexeme.ofText) := by
    rw [List.append_assoc, List.map_append, List.map_append, hbs]
    exact takeVolatiles_complete hq hl _
  have hbase := takeBase_complete hb (endsBase_levels hlevels)
  unfold readType
  rw [hvolatiles]
  dsimp only
  rw [hbase]
  dsimp only
  rw [takePointers_complete hlevels]

/-- **The reader of lexemes accepts what the grammar generates**, with the same type. -/
theorem readType_eq_ok_iff {src : String} {ts : Tokens} (h : tokenize src = .ok ts) (type : CType) :
    readType (ts.list.map (·.lexeme)) = .ok type ↔ Spells (ts.list.map (·.lexeme.text)) type := by
  have hread := tokens_read h
  have htexts : ts.list.map (·.lexeme.text) = (ts.list.map (·.lexeme)).map (·.text) := by
    rw [List.map_map]
    rfl
  rw [htexts]
  constructor
  · exact readType_sound hread
  · intro hspells
    rw [← readType_complete hspells, Lexeme.map_ofText_text hread]

end Spelling

theorem CType.ofSpelling_eq_ok {src : String} {type : CType} :
    CType.ofSpelling src = .ok type ↔
      ∃ ts, Spelling.tokenize src = .ok ts ∧ Spelling.readType (ts.list.map (·.lexeme)) = .ok type := by
  unfold CType.ofSpelling
  cases Spelling.tokenize src with
  | error bad => simp
  | ok ts =>
    simp only [Except.ok.injEq, exists_eq_left']
    cases Spelling.readType (ts.list.map (·.lexeme)) <;> simp

theorem Spelling.word_valid_of_baseSpelling {ws : List String} {b : Base} (h : BaseSpelling ws b) :
    ∀ w ∈ b.word?, Identifier.valid w.toList = true := by
  intro w hw
  cases h with
  | struct htag => cases hw; exact htag
  | union htag => cases hw; exact htag
  | builtin hname hmark => cases hw; exact hname.1
  | named hname hmark => cases hw; exact hname.1
  | _ => cases hw

/-- The base of a type that was read stands in the text. -/
theorem CType.baseSpelling_of_ofSpelling {src : String} {type : CType} (h : CType.ofSpelling src = .ok type) :
    ∃ bs, Spelling.BaseSpelling bs type.base := by
  obtain ⟨ts, htokens, hread⟩ := CType.ofSpelling_eq_ok.1 h
  exact ((Spelling.readType_eq_ok_iff htokens type).1 hread).base

/-- **The words of a type that was read are identifiers.** -/
theorem CType.word_valid_of_ofSpelling {src : String} {type : CType} (h : CType.ofSpelling src = .ok type) :
    ∀ w ∈ type.base.word?, Identifier.valid w.toList = true := by
  obtain ⟨bs, hbase⟩ := CType.baseSpelling_of_ofSpelling h
  exact Spelling.word_valid_of_baseSpelling hbase

/-- **A text spells a type exactly if it consists of tokens and the grammar gives their words that type.** -/
theorem CType.ofSpelling_eq_ok_iff (src : String) (type : CType) :
    CType.ofSpelling src = .ok type ↔
      ∃ ts, Spelling.tokenize src = .ok ts ∧ Spelling.Spells (ts.list.map (·.lexeme.text)) type := by
  rw [CType.ofSpelling_eq_ok]
  exact exists_congr fun ts => and_congr_right fun htokens => Spelling.readType_eq_ok_iff htokens type

end CAbi
