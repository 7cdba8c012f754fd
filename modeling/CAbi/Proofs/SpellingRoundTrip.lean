import CAbi.Declaration
import CAbi.Proofs.CodePoints
import CAbi.Proofs.SpellingGrammar
/-!
# SpellingRoundTrip — a type is written so that reading gives it back

The printer builds its text from the left, level by level, and decides at each star by the character before it whether a
blank is needed.  The reader cuts the text into words again.  Between the two stands what a text reads as (`ReadsAs`):
blanks, stars and words are put in front of a text one at a time, and a word may only stand in front of what does not
continue it (`EndsWord`).

The types that have a spelling are named in advance (`CType.Spellable`), by their parts and not by what the reader does.
-/
namespace CAbi

/-! ## The types that have a spelling -/

def ScalarKind.integers : List ScalarKind := [.char, .short, .int, .long, .longLong, .addr, .int64, .reg]

def ScalarKind.floats : List ScalarKind := [.float, .double, .longDouble]

/-- **A scalar that can be written**: an integer of any sign, a floating kind without one, or a lone sign keyword. -/
def Scalar.Spellable (s : Scalar) : Prop :=
  s.kind ∈ ScalarKind.integers ∧ s.implicitInt = false ∨
  s.kind ∈ ScalarKind.floats ∧ s.sign = .plain ∧ s.implicitInt = false ∨
  s.kind = .int ∧ s.sign ≠ .plain ∧ s.implicitInt = true

instance (s : Scalar) : Decidable s.Spellable := inferInstanceAs (Decidable (_ ∨ _))

def Base.Spellable : Base → Prop
  | .void => True
  | .scalar s => s.Spellable
  | .builtin name => Identifier.valid name.toList = true ∧ "__builtin_".toList <+: name.toList
  | .named name => Spelling.IsName name ∧ ¬"__builtin_".toList <+: name.toList
  | .tagged _ tag => Identifier.valid tag.toList = true

instance : (b : Base) → Decidable b.Spellable
  | .void => inferInstanceAs (Decidable True)
  | .scalar s => inferInstanceAs (Decidable s.Spellable)
  | .builtin _ => inferInstanceAs (Decidable (_ ∧ _))
  | .named _ => inferInstanceAs (Decidable (_ ∧ _))
  | .tagged _ _ => inferInstanceAs (Decidable (_ = _))

/-- **A type that can be written**: its base can, under any pointer levels and qualifiers. -/
def CType.Spellable (t : CType) : Prop := t.base.Spellable

instance (t : CType) : Decidable t.Spellable := inferInstanceAs (Decidable t.base.Spellable)

namespace Spelling

theorem kind_mem_integers {ws : List String} {kind : ScalarKind} (h : Integer ws kind) : kind ∈ ScalarKind.integers := by
  cases h <;> decide

theorem spellable_of_baseSpelling {ws : List String} {b : Base} (h : BaseSpelling ws b) : b.Spellable := by
  cases h with
  | integer hi => exact .inl ⟨kind_mem_integers hi, rfl⟩
  | signedInteger hs hi => exact .inl ⟨kind_mem_integers hi, rfl⟩
  | sign hs =>
    refine .inr (.inr ⟨rfl, ?_, rfl⟩)
    cases hs <;> exact nofun
  | struct htag => exact htag
  | union htag => exact htag
  | builtin hw hmark => exact ⟨hw.1, hmark⟩
  | named hw hmark => exact ⟨hw, hmark⟩
  | void => trivial
  | _ => exact .inr (.inl ⟨by decide, rfl, rfl⟩)

/-! ## What a text reads as -/

/-- **The characters are the words**, whatever column they start at. -/
def ReadsAs (cs : List Char) (ws : List String) : Prop :=
  ∀ column, ∃ ts, Cursor.tokens ⟨column, cs⟩ = .ok ts ∧ ts.list.map (·.lexeme.text) = ws

/-- **A word in front of the characters ends there.** -/
def EndsWord (cs : List Char) : Prop := ∀ c ∈ cs.head?, Identifier.isRest c = false

theorem EndsWord.takeWhile {cs : List Char} (h : EndsWord cs) : cs.takeWhile Identifier.isRest = [] := by
  cases cs with
  | nil => rfl
  | cons c cs => exact List.takeWhile_cons_of_neg (Bool.eq_false_iff.1 (h c rfl))

theorem EndsWord.dropWhile {cs : List Char} (h : EndsWord cs) : cs.dropWhile Identifier.isRest = cs := by
  cases cs with
  | nil => rfl
  | cons c cs => exact List.dropWhile_cons_of_neg (Bool.eq_false_iff.1 (h c rfl))

theorem endsWord_nil : EndsWord [] := nofun

theorem endsWord_cons {c : Char} (h : Identifier.isRest c = false) (cs : List Char) : EndsWord (c :: cs) := by
  intro x hx
  cases hx
  exact h

/-- The characters of a word lie between `0` and `z`. -/
theorem toNat_of_isRest {c : Char} (h : Identifier.isRest c = true) : 48 ≤ c.toNat ∧ c.toNat ≤ 122 := by
  rw [Identifier.isRest_iff, Identifier.isStart_iff] at h
  omega

theorem isBlank_of_isRest {c : Char} (h : Identifier.isRest c = true) : isBlank c = false := by
  have hrange := toNat_of_isRest h
  simp only [isBlank, blankRanges, List.any_cons, List.any_nil, Bool.or_false, Bool.or_eq_false_iff,
    Bool.and_eq_false_iff, decide_eq_false_iff_not]
  omega

theorem read_word {w : String} (hw : Identifier.valid w.toList = true) {cs : List Char} (hcs : EndsWord cs)
    (column : Nat) :
    Cursor.read ⟨column, w.toList ++ cs⟩ = (.token ⟨.ofWord w, column⟩, ⟨column + w.toList.length, cs⟩) := by
  cases hchars : w.toList with
  | nil =>
    rw [hchars] at hw
    cases hw
  | cons ch tail =>
    rw [hchars, Identifier.valid, Bool.and_eq_true, List.all_eq_true] at hw
    obtain ⟨hstart, htail⟩ := hw
    have hstar : ch ≠ '*' := by
      rintro rfl
      exact absurd hstart (by decide)
    have hblank : isBlank ch = false := isBlank_of_isRest (Identifier.isRest_of_isStart hstart)
    have hskip : Cursor.skipBlanks ⟨column, ch :: tail ++ cs⟩ = ⟨column, ch :: (tail ++ cs)⟩ := by
      simp [Cursor.skipBlanks, hblank, byteLength]
    rw [Cursor.read, hskip, Cursor.readAt, if_neg hstar, if_pos hstart]
    dsimp only
    rw [List.takeWhile_append_of_pos htail, List.dropWhile_append_of_pos htail, hcs.takeWhile, hcs.dropWhile,
      List.append_nil, ← hchars, String.ofList_toList, hchars, List.length_cons, Nat.add_assoc, Nat.add_comm 1]

theorem read_star (column : Nat) (cs : List Char) :
    Cursor.read ⟨column, '*' :: cs⟩ = (.token ⟨.star, column⟩, ⟨column + 1, cs⟩) := rfl

theorem read_blank {b : Char} (hb : isBlank b = true) (column : Nat) (cs : List Char) :
    Cursor.read ⟨column, b :: cs⟩ = Cursor.read ⟨column + b.utf8Size, cs⟩ := by
  have hskip : Cursor.skipBlanks ⟨column, b :: cs⟩ = Cursor.skipBlanks ⟨column + b.utf8Size, cs⟩ := by
    simp only [Cursor.skipBlanks, List.takeWhile_cons, List.dropWhile_cons, hb, if_true, byteLength, List.foldr_cons,
      Nat.add_assoc]
  rw [Cursor.read, hskip]
  rfl

theorem tokens_of_read_token {c d : Cursor} {tok : Token} {ts : Tokens} (h : c.read = (.token tok, d))
    (hd : d.tokens = .ok ts) : c.tokens = .ok { ts with list := tok :: ts.list } := by
  rw [Cursor.tokens]
  split
  · rename_i hread
    rw [h] at hread
    cases hread
    rw [hd]
  · rename_i hread
    rw [h] at hread
    cases hread
  · rename_i hread
    rw [h] at hread
    cases hread

theorem tokens_congr {c d : Cursor} (h : c.read = d.read) : c.tokens = d.tokens := by
  rw [Cursor.tokens.eq_1 c, Cursor.tokens.eq_1 d, h]

namespace ReadsAs

theorem nil : ReadsAs [] [] := by
  intro column
  refine ⟨⟨[], column⟩, ?_, rfl⟩
  rw [Cursor.tokens]
  rfl

theorem blank {b : Char} (hb : isBlank b = true) {cs : List Char} {ws : List String} (h : ReadsAs cs ws) :
    ReadsAs (b :: cs) ws := by
  intro column
  rw [tokens_congr (read_blank hb column cs)]
  exact h _

theorem star {cs : List Char} {ws : List String} (h : ReadsAs cs ws) : ReadsAs ('*' :: cs) ("*" :: ws) := by
  intro column
  obtain ⟨ts, hts, hws⟩ := h (column + 1)
  exact ⟨_, tokens_of_read_token (read_star column cs) hts, congrArg _ hws⟩

theorem word {w : String} (hw : Identifier.valid w.toList = true) {cs : List Char} {ws : List String}
    (hcs : EndsWord cs) (h : ReadsAs cs ws) : ReadsAs (w.toList ++ cs) (w :: ws) := by
  intro column
  obtain ⟨ts, hts, hws⟩ := h (column + w.toList.length)
  refine ⟨_, tokens_of_read_token (read_word hw hcs column) hts, ?_⟩
  rw [List.map_cons, hws, Lexeme.text_ofWord]

end ReadsAs

/-! ## The base

A base is printed as its words with a blank between two. -/

/-- **The text prints the words**, in front of whatever does not continue the last of them. -/
def Prints (text : String) (ws : List String) : Prop :=
  ∀ cs vs, EndsWord cs → ReadsAs cs vs → ReadsAs (text.toList ++ cs) (ws ++ vs)

theorem prints_word {w : String} (hw : Identifier.valid w.toList = true) : Prints w [w] :=
  fun _ _ hcs h => h.word hw hcs

theorem prints_join {a b : String} {ws vs : List String} (ha : Prints a ws) (hb : Prints b vs) :
    Prints (a ++ " " ++ b) (ws ++ vs) := by
  intro cs us hcs h
  have hblank : ReadsAs (' ' :: (b.toList ++ cs)) (vs ++ us) := (hb cs us hcs h).blank (by decide)
  have hall := ha _ _ (endsWord_cons (by decide) _) hblank
  rw [String.toList_append, String.toList_append, List.append_assoc, List.append_assoc, List.append_assoc]
  exact hall

theorem prints_integer {kind : ScalarKind} (h : kind ∈ ScalarKind.integers) :
    ∃ ws, Integer ws kind ∧ Prints kind.spelling ws := by
  have hlong : Prints "long" ["long"] := prints_word (by decide)
  cases kind with
  | char => exact ⟨_, .char, prints_word (by decide)⟩
  | short => exact ⟨_, .short, prints_word (by decide)⟩
  | int => exact ⟨_, .int, prints_word (by decide)⟩
  | long => exact ⟨_, .long, hlong⟩
  | longLong =>
    have htext : ScalarKind.longLong.spelling = "long" ++ " " ++ "long" := by decide
    exact ⟨_, .longLong, htext ▸ prints_join hlong hlong⟩
  | addr => exact ⟨_, .addr, prints_word (by decide)⟩
  | int64 => exact ⟨_, .int64, prints_word (by decide)⟩
  | reg => exact ⟨_, .reg, prints_word (by decide)⟩
  | _ => exact absurd h (by decide)

theorem prints_float {kind : ScalarKind} (h : kind ∈ ScalarKind.floats) :
    ∃ ws, BaseSpelling ws (.scalar (.plain kind)) ∧ Prints kind.spelling ws := by
  have hlong : Prints "long" ["long"] := prints_word (by decide)
  have hdouble : Prints "double" ["double"] := prints_word (by decide)
  cases kind with
  | float => exact ⟨_, .float, prints_word (by decide)⟩
  | double => exact ⟨_, .double, hdouble⟩
  | longDouble =>
    have htext : ScalarKind.longDouble.spelling = "long" ++ " " ++ "double" := by decide
    exact ⟨_, .longDouble, htext ▸ prints_join hlong hdouble⟩
  | _ => exact absurd h (by decide)

theorem prints_sign {sign : Sign} (h : sign ≠ .plain) :
    ∃ w, sign.keyword? = some w ∧ SignWord w sign ∧ Prints w [w] := by
  cases sign with
  | plain => exact absurd rfl h
  | signed => exact ⟨_, rfl, .signed, prints_word (by decide)⟩
  | unsigned => exact ⟨_, rfl, .unsigned, prints_word (by decide)⟩

theorem prints_scalar {s : Scalar} (h : s.Spellable) :
    ∃ ws, BaseSpelling ws (.scalar s) ∧ Prints s.spelling ws := by
  obtain ⟨kind, sign, implicitInt⟩ := s
  rcases h with ⟨hkind, rfl⟩ | ⟨hkind, rfl, rfl⟩ | ⟨rfl, hsign, rfl⟩
  · obtain ⟨ws, hinteger, hprints⟩ := prints_integer hkind
    by_cases hplain : sign = .plain
    · subst hplain
      exact ⟨ws, .integer hinteger, hprints⟩
    · obtain ⟨w, hkeyword, hword, hw⟩ := prints_sign hplain
      refine ⟨w :: ws, .signedInteger hword hinteger, ?_⟩
      simp only [Scalar.spelling, hkeyword, Bool.false_eq_true, if_false]
      exact prints_join hw hprints
  · exact prints_float hkind
  · obtain ⟨w, hkeyword, hword, hw⟩ := prints_sign hsign
    refine ⟨[w], .sign hword, ?_⟩
    simp only [Scalar.spelling, hkeyword, if_true]
    exact hw

/-- **A base prints words that spell it.** -/
theorem prints_base {b : Base} (h : b.Spellable) : ∃ ws, BaseSpelling ws b ∧ Prints b.spelling ws := by
  cases b with
  | void => exact ⟨_, .void, prints_word (by decide)⟩
  | scalar s => exact prints_scalar h
  | builtin name =>
    have hreserved : name ∉ reservedWords := by
      intro hmem
      have hmark : ∀ w ∈ reservedWords, ¬"__builtin_".toList <+: w.toList := by decide
      exact hmark name hmem h.2
    exact ⟨_, .builtin ⟨h.1, hreserved⟩ h.2, prints_word h.1⟩
  | named name => exact ⟨_, .named h.1 h.2, prints_word h.1.1⟩
  | tagged kind tag =>
    cases kind with
    | struct => exact ⟨_, .struct h, prints_join (prints_word (by decide)) (prints_word h)⟩
    | union => exact ⟨_, .union h, prints_join (prints_word (by decide)) (prints_word h)⟩

end Spelling

/-! ## The levels

The printer appends level after level.  What it appends depends on the text before it in one bit only, and after a level
that bit is known: the text ends in a star unless the level is volatile. -/

namespace CType

/-- The text of the levels after a text that does or does not end in a star. -/
def levelsText : Bool → List Bool → String
  | _, [] => ""
  | afterStar, v :: vs =>
    (if afterStar then "*" else " *") ++ (if v then "volatile" else "") ++ levelsText (!v) vs

theorem endsInStar_append (a : String) {b : String} (hb : b.toList ≠ []) : endsInStar (a ++ b) = endsInStar b := by
  unfold endsInStar
  rw [String.toList_append, List.getLast?_append, List.getLast?_eq_some_getLast hb, Option.some_or]

theorem endsInStar_addLevel (text : String) (v : Bool) : endsInStar (addLevel text v) = !v := by
  unfold addLevel
  cases v with
  | true => exact endsInStar_append _ (by decide)
  | false =>
    rw [if_neg Bool.false_ne_true, String.append_empty]
    cases endsInStar text with
    | true => exact endsInStar_append _ (by decide)
    | false => exact endsInStar_append _ (by decide)

theorem foldl_addLevel (vs : List Bool) (text : String) :
    vs.foldl addLevel text = text ++ levelsText (endsInStar text) vs := by
  induction vs generalizing text with
  | nil => exact (String.append_empty).symm
  | cons v vs ih =>
    rw [List.foldl_cons, ih, endsInStar_addLevel, addLevel, levelsText, String.append_assoc, String.append_assoc,
      String.append_assoc]

end CType

namespace Spelling

/-- **The levels print words that spell them**, and no word runs into their first character. -/
theorem readsAs_levelsText (afterStar : Bool) (vs : List Bool) :
    EndsWord (CType.levelsText afterStar vs).toList ∧
      ∃ ws, Levels ws vs ∧ ReadsAs (CType.levelsText afterStar vs).toList ws := by
  induction vs generalizing afterStar with
  | nil => exact ⟨endsWord_nil, [], .none, .nil⟩
  | cons v vs ih =>
    obtain ⟨hends, ws, hlevels, hreads⟩ := ih (!v)
    have hqualifiers : ∃ qs, Qualifiers qs v ∧
        ReadsAs ((if v then "volatile" else "").toList ++ (CType.levelsText (!v) vs).toList) (qs ++ ws) := by
      cases v with
      | true => exact ⟨["volatile"], .volatile .none, hreads.word (by decide) hends⟩
      | false => exact ⟨[], .none, hreads⟩
    obtain ⟨qs, hq, hreads⟩ := hqualifiers
    rw [CType.levelsText, String.toList_append, String.toList_append, List.append_assoc]
    cases afterStar with
    | true => exact ⟨endsWord_cons (by decide) _, _, .level hq hlevels, hreads.star⟩
    | false => exact ⟨endsWord_cons (by decide) _, _, .level hq hlevels, hreads.star.blank (by decide)⟩

/-- **A type prints words that spell it.** -/
theorem readsAs_spelling {type : CType} (h : type.Spellable) :
    ∃ ws, Spells ws type ∧ ReadsAs type.spelling.toList ws := by
  obtain ⟨base, isVolatile, pointers⟩ := type
  obtain ⟨bs, hbase, hprints⟩ := prints_base h
  unfold CType.spelling
  rw [CType.foldl_addLevel]
  dsimp only
  generalize endsInStar ((if isVolatile then "volatile " else "") ++ base.spelling) = afterStar
  obtain ⟨hends, ls, hlevels, hreads⟩ := readsAs_levelsText afterStar pointers
  have hreads := hprints _ _ hends hreads
  rw [String.toList_append, String.toList_append, List.append_assoc]
  cases isVolatile with
  | true =>
    have hvalid : Identifier.valid "volatile".toList = true := by decide
    have htext : "volatile ".toList = "volatile".toList ++ [' '] := by decide
    have hblank := hreads.blank (by decide : isBlank ' ' = true)
    refine ⟨_, .spelling (.volatile .none) hbase hlevels, ?_⟩
    rw [if_pos rfl, htext, List.append_assoc]
    exact hblank.word hvalid (endsWord_cons (by decide) _)
  | false => exact ⟨_, .spelling .none hbase hlevels, hreads⟩

end Spelling

namespace CType

theorem spellable_of_ofSpelling {src : String} {type : CType} (h : ofSpelling src = .ok type) : type.Spellable := by
  obtain ⟨bs, hbase⟩ := baseSpelling_of_ofSpelling h
  exact Spelling.spellable_of_baseSpelling hbase

theorem ofSpelling_spelling {type : CType} (h : type.Spellable) : ofSpelling type.spelling = .ok type := by
  obtain ⟨ws, hspells, hreads⟩ := Spelling.readsAs_spelling h
  obtain ⟨ts, htokens, rfl⟩ := hreads 0
  exact ofSpelling_eq_ok.2 ⟨ts, htokens, (Spelling.readType_eq_ok_iff htokens type).2 hspells⟩

/-- **Writing and reading are inverse.**  What was read can be written, and what can be written is read back as it was. -/
theorem spelling_reads_back (type : CType) :
    (∀ src, ofSpelling src = .ok type → type.Spellable) ∧
      (type.Spellable → ofSpelling type.spelling = .ok type) :=
  ⟨fun _ h => spellable_of_ofSpelling h, ofSpelling_spelling⟩

/-- Stars that stand together and apart, a lone sign keyword, and a tag that is a keyword elsewhere. -/
theorem spelling_reads_back_levels :
    let signs : CType := ⟨.scalar (.bare .unsigned), true, [false, false, true, false]⟩
    let tags : CType := ⟨.tagged .struct "volatile", false, [true]⟩
    signs.Spellable ∧ signs.spelling = "volatile unsigned ***volatile *" ∧ ofSpelling signs.spelling = .ok signs ∧
    tags.Spellable ∧ tags.spelling = "struct volatile *volatile" ∧ ofSpelling tags.spelling = .ok tags :=
  ⟨by decide, by decide, (spelling_reads_back _).2 (by decide),
    by decide, by decide, (spelling_reads_back _).2 (by decide)⟩

end CType
end CAbi
