import Mathlib.Data.List.Chain
import CAbi.Proofs.SpellingRoundTrip
/-!
# TokenLayout — where the tokens of a text stand, and where there can be none

A text is cut into blanks, stars and words from left to right, and every cut falls between two characters.  What one step
can meet is said once (`read_meets`): a token after blanks, the end after blanks, or a character that starts no token.
From it follows what a text that is all tokens looks like (`Laid`), and that reading gives the tokens of a text exactly if
it is laid out as them (`tokenize_eq_ok_iff`).

A character is in the wrong place (`Misplaced`) by what it is and by the character before it, with no regard to where
reading has got to.  Blanks, stars and words hold no such character, and reading stops at nothing else; so the first of
them is where reading fails (`tokenize_error`).
-/
namespace CAbi
namespace Spelling

/-! ## Bytes -/

theorem byteLength_append (xs ys : List Char) : byteLength (xs ++ ys) = byteLength xs + byteLength ys := by
  induction xs with
  | nil => simp [byteLength]
  | cons c xs ih =>
    simp only [byteLength, List.cons_append, List.foldr_cons] at ih ⊢
    omega

theorem byteLength_pos {cs : List Char} (h : cs ≠ []) : 0 < byteLength cs := by
  cases cs with
  | nil => exact absurd rfl h
  | cons c cs =>
    have hc := c.utf8Size_pos
    simp only [byteLength, List.foldr_cons]
    omega

theorem utf8ByteSize_eq_byteLength (s : String) : s.utf8ByteSize = byteLength s.toList := by
  have hlist : ∀ cs : List Char, (String.ofList cs).utf8ByteSize = byteLength cs := fun cs => by
    induction cs with
    | nil => rfl
    | cons c cs ih =>
      rw [String.ofList_cons, String.utf8ByteSize_append, String.utf8ByteSize_singleton, ih]
      rfl
  rw [← hlist, String.ofList_toList]

/-- The characters of a word take a byte each. -/
theorem byteLength_of_valid {cs : List Char} (h : Identifier.valid cs = true) : byteLength cs = cs.length := by
  have hrest := Identifier.all_isRest_of_valid h
  clear h
  induction cs with
  | nil => rfl
  | cons c cs ih =>
    have hrange := toNat_of_isRest (hrest c List.mem_cons_self)
    have hsize : c.utf8Size = 1 := Char.utf8Size_eq_one_iff.2 (UInt32.le_iff_toNat_le.2 (by
      show c.toNat ≤ 127
      omega))
    have hlength := ih fun x hx => hrest x (List.mem_cons_of_mem _ hx)
    simp only [byteLength, List.foldr_cons, List.length_cons] at hlength ⊢
    omega

/-! ## One step -/

/-- A lexeme in front of the characters ends there. -/
def EndsLexeme (l : Lexeme) (cs : List Char) : Prop := l ≠ .star → EndsWord cs

theorem endsWord_dropWhile (cs : List Char) : EndsWord (cs.dropWhile Identifier.isRest) := by
  intro c hc
  have hhead := List.head?_dropWhile_not Identifier.isRest cs
  rw [hc] at hhead
  exact hhead

/-- A step at the start of a word takes all of it. -/
theorem readAt_word {ch : Char} (hstart : Identifier.isStart ch = true) (column : Nat) (cs : List Char) :
    ∃ l rest, ch :: cs = l.text.toList ++ rest ∧ l.Read ∧ EndsWord rest ∧
      Cursor.readAt column (ch :: cs) = (.token ⟨l, column⟩, ⟨column + byteLength l.text.toList, rest⟩) := by
  have hstar : ch ≠ '*' := by
    rintro rfl
    exact absurd hstart (by decide)
  let word := ch :: cs.takeWhile Identifier.isRest
  have hchars : (Lexeme.ofWord (String.ofList word)).text.toList = word := by
    rw [Lexeme.text_ofWord, String.toList_ofList]
  have hvalid : Identifier.valid word = true := by
    rw [Identifier.valid, hstart, List.all_takeWhile]
    rfl
  have hlength : column + byteLength word = column + 1 + (cs.takeWhile Identifier.isRest).length := by
    rw [byteLength_of_valid hvalid, List.length_cons]
    omega
  have hread : Cursor.readAt column (ch :: cs) = (.token ⟨.ofWord (String.ofList word), column⟩,
      ⟨column + byteLength word, cs.dropWhile Identifier.isRest⟩) := by
    rw [hlength, Cursor.readAt, if_neg hstar, if_pos hstart]
  refine ⟨.ofWord (String.ofList word), cs.dropWhile Identifier.isRest, ?_, readAt_read hread, endsWord_dropWhile cs,
    ?_⟩
  · rw [hchars, List.cons_append, List.takeWhile_append_dropWhile]
  · rw [hchars, hread]

/-- **What one step can meet**: a token, the end, or a character that starts no token, each after blanks. -/
inductive Meets (column : Nat) : List Char → Reading × Cursor → Prop where
  | token {gap cs : List Char} {l : Lexeme} : gap.all isBlank = true → l.Read → EndsLexeme l cs →
      Meets column (gap ++ (l.text.toList ++ cs))
        (.token ⟨l, column + byteLength gap⟩, ⟨column + byteLength gap + byteLength l.text.toList, cs⟩)
  | finish {gap : List Char} : gap.all isBlank = true →
      Meets column gap (.finish (column + byteLength gap), ⟨column + byteLength gap, []⟩)
  | badChar {gap cs : List Char} {ch : Char} :
      gap.all isBlank = true → isBlank ch = false → ch ≠ '*' → Identifier.isStart ch = false →
      Meets column (gap ++ ch :: cs) (.badChar ch (column + byteLength gap), ⟨column + byteLength gap, ch :: cs⟩)

theorem read_meets {c : Cursor} {reading : Reading × Cursor} (h : c.read = reading) :
    Meets c.column c.rest reading := by
  subst h
  have hsplit : c.rest = c.rest.takeWhile isBlank ++ c.rest.dropWhile isBlank := List.takeWhile_append_dropWhile.symm
  have hgap : (c.rest.takeWhile isBlank).all isBlank = true := List.all_takeWhile
  have hread : c.read =
      Cursor.readAt (c.column + byteLength (c.rest.takeWhile isBlank)) (c.rest.dropWhile isBlank) := rfl
  have hhead := List.head?_dropWhile_not isBlank c.rest
  generalize c.rest.takeWhile isBlank = gap at hsplit hgap hread
  generalize c.rest.dropWhile isBlank = cs at hsplit hread hhead
  rw [hread, hsplit]
  cases cs with
  | nil =>
    rw [List.append_nil]
    exact .finish hgap
  | cons ch cs =>
    by_cases hstar : ch = '*'
    · subst hstar
      exact .token (l := .star) hgap ⟨rfl, nofun⟩ fun h => absurd rfl h
    · by_cases hstart : Identifier.isStart ch = true
      · obtain ⟨l, rest, hchars, hl, hends, hword⟩ := readAt_word hstart (c.column + byteLength gap) cs
        rw [hword, hchars]
        exact .token hgap hl fun _ => hends
      · rw [Cursor.readAt, if_neg hstar, if_neg hstart]
        exact .badChar hgap hhead hstar (Bool.eq_false_iff.2 hstart)

/-! ## The layout of a text -/

/-- **The characters from a column on are tokens with blanks between them**, each token at its column, and they end at
a column.  A word goes on as far as it can. -/
inductive Laid : Nat → List Char → List Token → Nat → Prop where
  | finish {column : Nat} {gap : List Char} : gap.all isBlank = true → Laid column gap [] (column + byteLength gap)
  | token {column stop : Nat} {gap cs : List Char} {l : Lexeme} {ts : List Token} :
      gap.all isBlank = true → l.Read → EndsLexeme l cs →
        Laid (column + byteLength gap + byteLength l.text.toList) cs ts stop →
        Laid column (gap ++ (l.text.toList ++ cs)) (⟨l, column + byteLength gap⟩ :: ts) stop

theorem laid_of_tokens {c : Cursor} {ts : Tokens} (h : c.tokens = .ok ts) :
    Laid c.column c.rest ts.list ts.endColumn := by
  fun_induction Cursor.tokens c generalizing ts with
  | case1 c t d hread ts' hts ih =>
    cases h
    obtain ⟨column, cs⟩ := c
    have hmeets : Meets column cs _ := read_meets hread
    cases hmeets with
    | token hgap hl hends => exact .token hgap hl hends (ih hts)
  | case2 => cases h
  | case3 c column d hread =>
    cases h
    obtain ⟨column, cs⟩ := c
    have hmeets : Meets column cs _ := read_meets hread
    cases hmeets with
    | finish hgap => exact .finish hgap
  | case4 => cases h

theorem read_gap {gap : List Char} (h : gap.all isBlank = true) (column : Nat) (cs : List Char) :
    Cursor.read ⟨column, gap ++ cs⟩ = Cursor.read ⟨column + byteLength gap, cs⟩ := by
  induction gap generalizing column with
  | nil => rfl
  | cons b gap ih =>
    rw [List.all_cons, Bool.and_eq_true] at h
    rw [List.cons_append, read_blank h.1, ih h.2, Nat.add_assoc]
    rfl

theorem Lexeme.Read.cases {l : Lexeme} (h : l.Read) : l = .star ∨ Identifier.valid l.text.toList = true := by
  cases l with
  | star => exact .inl rfl
  | keyword k => exact .inr (h.valid _ rfl)
  | name s => exact .inr (h.valid _ rfl)

theorem read_lexeme {l : Lexeme} (hl : l.Read) {cs : List Char} (hends : EndsLexeme l cs) (column : Nat) :
    Cursor.read ⟨column, l.text.toList ++ cs⟩ =
      (.token ⟨l, column⟩, ⟨column + byteLength l.text.toList, cs⟩) := by
  rcases hl.cases with rfl | hvalid
  · exact read_star column cs
  · have hstar : l ≠ .star := by
      rintro rfl
      exact absurd hvalid (by decide)
    have hword : Lexeme.ofWord l.text = l := (Lexeme.ofText_of_valid hvalid).symm.trans hl.ofText_text
    rw [read_word hvalid (hends hstar), hword, byteLength_of_valid hvalid]

theorem tokens_of_laid {column stop : Nat} {cs : List Char} {ts : List Token} (h : Laid column cs ts stop) :
    Cursor.tokens ⟨column, cs⟩ = .ok ⟨ts, stop⟩ := by
  induction h with
  | @finish column gap hgap =>
    have hread : Cursor.read ⟨column, gap⟩ = Cursor.read ⟨column + byteLength gap, []⟩ := by
      have hskip := read_gap hgap column []
      rw [List.append_nil] at hskip
      exact hskip
    rw [tokens_congr hread, Cursor.tokens]
    rfl
  | token hgap hl hends _ ih =>
    exact tokens_of_read_token ((read_gap hgap _ _).trans (read_lexeme hl hends _)) ih

/-- **Reading gives the tokens of a text exactly if it is laid out as them.** -/
theorem tokenize_eq_ok_iff {src : String} {ts : Tokens} :
    tokenize src = .ok ts ↔ Laid 0 src.toList ts.list ts.endColumn :=
  ⟨laid_of_tokens, tokens_of_laid⟩

/-! ## Where the tokens stand -/

/-- **A stretch of a text**: the byte it begins at, and what stands there. -/
structure Stretch where
  start : Nat
  text : String
  deriving DecidableEq, Repr

def Stretch.stop (s : Stretch) : Nat := s.start + s.text.utf8ByteSize

/-- **The text holds the stretch.** -/
def Stretch.In (s : Stretch) (src : String) : Prop :=
  ∃ before after, src = before ++ s.text ++ after ∧ before.utf8ByteSize = s.start

/-- **Between the two stretches there are only blanks**, and at least one if both are words. -/
def Apart (src : String) (a b : Stretch) : Prop :=
  ∃ gap : Stretch, gap.In src ∧ gap.start = a.stop ∧ gap.stop = b.start ∧ gap.text.toList.all isBlank = true ∧
    (Identifier.valid a.text.toList = true → Identifier.valid b.text.toList = true → gap.text ≠ "")

/-- The tokens, and after them the end as an empty one. -/
def stretchesOf (ts : List Token) (stop : Nat) : List Stretch :=
  ts.map (fun t => ⟨t.column, t.lexeme.text⟩) ++ [⟨stop, ""⟩]

def Tokens.stretches (ts : Tokens) : List Stretch := stretchesOf ts.list ts.endColumn

theorem stretch_in {src : String} {before text after : List Char} (h : src.toList = before ++ (text ++ after)) :
    Stretch.In ⟨byteLength before, String.ofList text⟩ src := by
  refine ⟨String.ofList before, String.ofList after, ?_, ?_⟩
  · rw [← String.ofList_append, ← String.ofList_append, List.append_assoc, ← h, String.ofList_toList]
  · rw [utf8ByteSize_eq_byteLength, String.toList_ofList]

theorem Laid.stop_eq {column stop : Nat} {cs : List Char} {ts : List Token} (h : Laid column cs ts stop) :
    stop = column + byteLength cs := by
  induction h with
  | finish hgap => rfl
  | token hgap hl hends _ ih =>
    rw [ih, byteLength_append, byteLength_append]
    omega

theorem Lexeme.Read.byteLength_pos {l : Lexeme} (h : l.Read) : 0 < byteLength l.text.toList := by
  refine Spelling.byteLength_pos fun hnil => ?_
  rcases h.cases with rfl | hvalid
  · exact absurd hnil (by decide)
  · rw [hnil] at hvalid
    cases hvalid

theorem Laid.increasing {column stop : Nat} {cs : List Char} {ts : List Token} (h : Laid column cs ts stop) :
    (∀ s ∈ stretchesOf ts stop, column ≤ s.start) ∧ (stretchesOf ts stop).Pairwise fun a b => a.start < b.start := by
  induction h with
  | finish hgap =>
    refine ⟨fun s hs => ?_, List.pairwise_singleton _ _⟩
    rw [List.mem_singleton.1 hs]
    exact Nat.le_add_right _ _
  | token hgap hl hends _ ih =>
    obtain ⟨hle, hincreasing⟩ := ih
    have hpos := hl.byteLength_pos
    refine ⟨List.forall_mem_cons.2 ⟨Nat.le_add_right _ _, fun s hs => ?_⟩,
      List.pairwise_cons.2 ⟨fun s hs => ?_, hincreasing⟩⟩
    · have := hle s hs
      omega
    · have := hle s hs
      dsimp only
      omega

theorem apart_of_gap {src : String} {before gap after : List Char} (hsrc : src.toList = before ++ (gap ++ after))
    (hgap : gap.all isBlank = true) {a b : Stretch} (ha : a.stop = byteLength before)
    (hb : b.start = byteLength before + byteLength gap)
    (hwords : Identifier.valid a.text.toList = true → Identifier.valid b.text.toList = true → gap ≠ []) :
    Apart src a b := by
  refine ⟨⟨byteLength before, String.ofList gap⟩, stretch_in hsrc, ha.symm, ?_, ?_, fun hva hvb hempty => ?_⟩
  · rw [hb, Stretch.stop, utf8ByteSize_eq_byteLength, String.toList_ofList]
  · rw [String.toList_ofList]
    exact hgap
  · have hchars := congrArg String.toList hempty
    rw [String.toList_ofList] at hchars
    exact hwords hva hvb hchars

theorem not_endsWord_of_valid {word : List Char} (h : Identifier.valid word = true) (cs : List Char) :
    ¬EndsWord (word ++ cs) := by
  cases word with
  | nil => cases h
  | cons c word =>
    intro hends
    have hrest := Identifier.all_isRest_of_valid h c List.mem_cons_self
    rw [hends c rfl] at hrest
    cases hrest

/-- **A text that is laid out holds its tokens with blanks between**, from a stretch that ends where the layout begins. -/
theorem Laid.stretches {src : String} {column stop : Nat} {cs : List Char} {ts : List Token}
    (h : Laid column cs ts stop) {before : List Char} (hsrc : src.toList = before ++ cs)
    (hcolumn : byteLength before = column) {prev : Stretch} (hstop : prev.stop = column)
    (hends : Identifier.valid prev.text.toList = true → EndsWord cs) :
    (∀ s ∈ stretchesOf ts stop, s.In src) ∧ (prev :: stretchesOf ts stop).IsChain (Apart src) := by
  induction h generalizing before prev with
  | @finish column gap hgap =>
    subst hcolumn
    have hgapped : src.toList = before ++ (gap ++ []) := by rw [hsrc, List.append_nil]
    have hin : Stretch.In ⟨byteLength before + byteLength gap, ""⟩ src := by
      rw [← byteLength_append]
      exact stretch_in (hgapped.trans (List.append_assoc before gap []).symm)
    refine ⟨fun s hs => List.mem_singleton.1 hs ▸ hin, .cons_cons ?_ (.singleton _)⟩
    refine apart_of_gap hgapped hgap hstop rfl fun _ hempty => ?_
    cases hempty
  | @token column stop gap cs l ts hgap hl hendsl hlaid ih =>
    subst hcolumn
    have hsrc' : src.toList = (before ++ gap) ++ (l.text.toList ++ cs) := by rw [hsrc, List.append_assoc]
    have hin : Stretch.In ⟨byteLength before + byteLength gap, l.text⟩ src := by
      have hin := stretch_in hsrc'
      rw [byteLength_append, String.ofList_toList] at hin
      exact hin
    have hnext : Identifier.valid l.text.toList = true → EndsWord cs := fun hvalid => hendsl (by
      rintro rfl
      exact absurd hvalid (by decide))
    have hrest : src.toList = (before ++ gap ++ l.text.toList) ++ cs := by rw [hsrc', List.append_assoc (before ++ gap)]
    have hstop' : Stretch.stop ⟨byteLength before + byteLength gap, l.text⟩ =
        byteLength before + byteLength gap + byteLength l.text.toList := by
      rw [Stretch.stop, utf8ByteSize_eq_byteLength]
    obtain ⟨hall, hchain⟩ := ih hrest (by rw [byteLength_append, byteLength_append]) hstop' hnext
    refine ⟨List.forall_mem_cons.2 ⟨hin, hall⟩, .cons_cons ?_ hchain⟩
    refine apart_of_gap hsrc hgap hstop rfl fun hprev hvalid hnil => ?_
    -- without a blank between them the second word would have been read with the first
    subst hnil
    exact not_endsWord_of_valid hvalid cs (hends hprev)

/-! ## Where there can be no token -/

/-- **A character in the wrong place**: no blank, no star, and no character of a word, or a digit with no word before it
that it could go on with. -/
def Misplaced (prev : Option Char) (ch : Char) : Prop :=
  isBlank ch = false ∧ ch ≠ '*' ∧
    (Identifier.isRest ch = false ∨ ch.isDigit = true ∧ prev.any Identifier.isRest = false)

instance (prev : Option Char) (ch : Char) : Decidable (Misplaced prev ch) := inferInstanceAs (Decidable (_ ∧ _))

/-- **The text goes on with the character after `before`, and it is in the wrong place there.** -/
def MisplacedAt (src before : String) (ch : Char) : Prop :=
  (∃ after, src = before ++ String.singleton ch ++ after) ∧ Misplaced before.toList.getLast? ch

theorem misplacedAt_of_toList {src : String} {xs ys : List Char} {ch : Char} (h : src.toList = xs ++ ch :: ys)
    (hbad : Misplaced xs.getLast? ch) : MisplacedAt src (String.ofList xs) ch := by
  refine ⟨⟨String.ofList ys, ?_⟩, ?_⟩
  · rw [← String.toList_inj]
    simp [h]
  · rw [String.toList_ofList]
    exact hbad

/-- No character is in the wrong place, the first one coming after `prev`. -/
def WellPlaced : Option Char → List Char → Prop
  | _, [] => True
  | prev, c :: cs => ¬Misplaced prev c ∧ WellPlaced (some c) cs

theorem getLast?_cons_or (c : Char) (cs : List Char) (prev : Option Char) :
    (c :: cs).getLast?.or prev = cs.getLast?.or (some c) := by
  rw [List.getLast?_cons, Option.some_or]
  cases cs.getLast? <;> rfl

theorem wellPlaced_append {prev : Option Char} {xs ys : List Char} :
    WellPlaced prev (xs ++ ys) ↔ WellPlaced prev xs ∧ WellPlaced (xs.getLast?.or prev) ys := by
  induction xs generalizing prev with
  | nil => simp [WellPlaced]
  | cons x xs ih => rw [List.cons_append, WellPlaced, WellPlaced, ih, getLast?_cons_or, and_assoc]

theorem wellPlaced_iff {src : String} : WellPlaced none src.toList ↔ ∀ before ch, ¬MisplacedAt src before ch := by
  constructor
  · rintro h before ch ⟨⟨after, rfl⟩, hbad⟩
    simp only [String.toList_append, String.toList_singleton, List.append_assoc, List.singleton_append] at h
    have hch := (wellPlaced_append.1 h).2
    rw [Option.or_none] at hch
    exact hch.1 hbad
  · intro h
    have hall : ∀ xs ys, src.toList = xs ++ ys → WellPlaced xs.getLast? ys := by
      intro xs ys hsrc
      induction ys generalizing xs with
      | nil => trivial
      | cons y ys ih =>
        have hrest := ih (xs ++ [y]) (by rw [hsrc, List.append_assoc]; rfl)
        rw [List.getLast?_concat] at hrest
        exact ⟨fun hbad => h _ _ (misplacedAt_of_toList hsrc hbad), hrest⟩
    exact hall [] src.toList rfl

theorem wellPlaced_gap {gap : List Char} (h : gap.all isBlank = true) (prev : Option Char) : WellPlaced prev gap := by
  induction gap generalizing prev with
  | nil => trivial
  | cons b gap ih =>
    rw [List.all_cons, Bool.and_eq_true] at h
    exact ⟨by simp [Misplaced, h.1], ih h.2 _⟩

theorem wellPlaced_rest {cs : List Char} (h : ∀ c ∈ cs, Identifier.isRest c = true) {p : Char}
    (hp : Identifier.isRest p = true) : WellPlaced (some p) cs := by
  induction cs generalizing p with
  | nil => trivial
  | cons c cs ih =>
    have hc := h c List.mem_cons_self
    exact ⟨by simp [Misplaced, hc, hp], ih (fun x hx => h x (List.mem_cons_of_mem _ hx)) hc⟩

theorem isDigit_eq_false_of_isStart {c : Char} (h : Identifier.isStart c = true) : c.isDigit = false := by
  rw [Identifier.isStart_iff] at h
  rw [Bool.eq_false_iff, ne_eq, Identifier.isDigit_iff]
  omega

/-- A word begins with no digit, so nothing in it depends on what stands before it. -/
theorem wellPlaced_word {word : List Char} (h : Identifier.valid word = true) (prev : Option Char) :
    WellPlaced prev word := by
  have hrest := Identifier.all_isRest_of_valid h
  cases word with
  | nil => trivial
  | cons c word =>
    rw [Identifier.valid, Bool.and_eq_true] at h
    have hc := hrest c List.mem_cons_self
    have hdigit := isDigit_eq_false_of_isStart h.1
    exact ⟨by simp [Misplaced, hc, hdigit], wellPlaced_rest (fun x hx => hrest x (List.mem_cons_of_mem _ hx)) hc⟩

theorem Lexeme.Read.wellPlaced {l : Lexeme} (h : l.Read) (prev : Option Char) : WellPlaced prev l.text.toList := by
  rcases h.cases with rfl | hvalid
  · exact ⟨fun hbad => hbad.2.1 rfl, trivial⟩
  · exact wellPlaced_word hvalid prev

theorem Laid.wellPlaced {column stop : Nat} {cs : List Char} {ts : List Token} (h : Laid column cs ts stop)
    (prev : Option Char) : WellPlaced prev cs := by
  induction h generalizing prev with
  | finish hgap => exact wellPlaced_gap hgap prev
  | token hgap hl hends _ ih =>
    exact wellPlaced_append.2 ⟨wellPlaced_gap hgap prev, wellPlaced_append.2 ⟨hl.wellPlaced _, ih _⟩⟩

/-- A character that starts no token is in the wrong place, if no word runs up to it. -/
theorem misplaced_of_not_isStart {gap cs : List Char} {prev : Option Char} {ch : Char} (hgap : gap.all isBlank = true)
    (hblank : isBlank ch = false) (hstar : ch ≠ '*') (hstart : Identifier.isStart ch = false)
    (hprev : EndsWord (gap ++ ch :: cs) ∨ prev.any Identifier.isRest = false) :
    Misplaced (gap.getLast?.or prev) ch := by
  refine ⟨hblank, hstar, ?_⟩
  by_cases hrest : Identifier.isRest ch = true
  · have hdigit : ch.isDigit = true := by
      have hnot : ¬Identifier.isStart ch = true := Bool.eq_false_iff.1 hstart
      exact Identifier.isDigit_iff.2 ((Identifier.isRest_iff.1 hrest).resolve_left hnot)
    refine .inr ⟨hdigit, ?_⟩
    cases hlast : gap.getLast? with
    | none =>
      rw [List.getLast?_eq_none_iff.1 hlast] at hprev
      refine hprev.resolve_left fun hends => ?_
      rw [hends ch rfl] at hrest
      cases hrest
    | some b =>
      have hb := List.all_eq_true.1 hgap b (List.mem_of_getLast? hlast)
      rw [Option.some_or, Option.any_some, Bool.eq_false_iff]
      intro hword
      rw [isBlank_of_isRest hword] at hb
      cases hb
  · exact .inl (Bool.eq_false_iff.2 hrest)

/-- **Reading fails at the first character in the wrong place.** -/
theorem misplaced_of_tokens_error {c : Cursor} {bad : BadChar} (h : c.tokens = .error bad) {prev : Option Char}
    (hprev : EndsWord c.rest ∨ prev.any Identifier.isRest = false) :
    ∃ xs ys, c.rest = xs ++ bad.ch :: ys ∧ bad.column = c.column + byteLength xs ∧ WellPlaced prev xs ∧
      Misplaced (xs.getLast?.or prev) bad.ch := by
  fun_induction Cursor.tokens c generalizing prev with
  | case1 => cases h
  | case2 c t d hread bad' hbad ih =>
    cases h
    obtain ⟨column, cs⟩ := c
    have hmeets : Meets column cs _ := read_meets hread
    cases hmeets with
    | @token gap cs l hgap hl hends =>
      have hprev' : EndsWord cs ∨ (l.text.toList.getLast?.or (gap.getLast?.or prev)).any Identifier.isRest = false := by
        by_cases hstar : l = .star
        · subst hstar
          exact .inr rfl
        · exact .inl (hends hstar)
      obtain ⟨xs, ys, hcs, hcolumn, hwell, hmisplaced⟩ := ih hbad hprev'
      refine ⟨gap ++ (l.text.toList ++ xs), ys, ?_, ?_, ?_, ?_⟩
      · dsimp only at hcs ⊢
        rw [hcs, List.append_assoc, List.append_assoc]
      · rw [hcolumn, byteLength_append, byteLength_append]
        dsimp only
        omega
      · exact wellPlaced_append.2 ⟨wellPlaced_gap hgap prev, wellPlaced_append.2 ⟨hl.wellPlaced _, hwell⟩⟩
      · rw [List.getLast?_append, List.getLast?_append, Option.or_assoc, Option.or_assoc]
        exact hmisplaced
  | case3 => cases h
  | case4 c ch column d hread =>
    cases h
    obtain ⟨column, cs⟩ := c
    have hmeets : Meets column cs _ := read_meets hread
    cases hmeets with
    | @badChar gap cs ch hgap hblank hstar hstart =>
      exact ⟨gap, cs, rfl, rfl, wellPlaced_gap hgap prev, misplaced_of_not_isStart hgap hblank hstar hstart hprev⟩

theorem tokenize_error {src : String} {bad : BadChar} (h : tokenize src = .error bad) :
    ∃ before, MisplacedAt src before bad.ch ∧ before.utf8ByteSize = bad.column ∧
      ∀ earlier ch, ¬MisplacedAt before earlier ch := by
  have hnothing : EndsWord src.toList ∨ (none : Option Char).any Identifier.isRest = false := .inr rfl
  obtain ⟨xs, ys, hsrc, hcolumn, hwell, hbad⟩ := misplaced_of_tokens_error h hnothing
  rw [Option.or_none] at hbad
  refine ⟨String.ofList xs, misplacedAt_of_toList hsrc hbad, ?_, wellPlaced_iff.1 ?_⟩
  · rw [utf8ByteSize_eq_byteLength, String.toList_ofList, hcolumn]
    exact (Nat.zero_add _).symm
  · rw [String.toList_ofList]
    exact hwell

theorem tokenize_eq_error_iff (src : String) :
    (∃ bad, tokenize src = .error bad) ↔ ∃ before ch, MisplacedAt src before ch := by
  constructor
  · rintro ⟨bad, h⟩
    obtain ⟨before, hbad, -⟩ := tokenize_error h
    exact ⟨before, bad.ch, hbad⟩
  · rintro ⟨before, ch, hbad⟩
    cases h : tokenize src with
    | error bad => exact ⟨bad, rfl⟩
    | ok ts =>
      exact absurd hbad (wellPlaced_iff.1 ((tokenize_eq_ok_iff.1 h).wellPlaced none) before ch)

/-! ## The place of the cursor -/

/-- The cursor after `n` readings. -/
def Cursor.afterReads : Nat → Cursor → Cursor
  | 0, c => c
  | n + 1, c => afterReads n c.read.2

/-- **The cursor stands in the text between two characters**, with the rest of the text ahead of it. -/
def Cursor.In (c : Cursor) (src : String) : Prop :=
  ∃ before, src = before ++ String.ofList c.rest ∧ before.utf8ByteSize = c.column

theorem Cursor.In.read {c : Cursor} {src : String} (h : c.In src) : c.read.2.In src := by
  obtain ⟨before, hsrc, hcolumn⟩ := h
  have hahead : ∀ (xs ys : List Char), c.rest = xs ++ ys → Cursor.In ⟨c.column + byteLength xs, ys⟩ src := by
    intro xs ys hrest
    refine ⟨before ++ String.ofList xs, ?_, ?_⟩
    · rw [hsrc, hrest, String.ofList_append, String.append_assoc]
    · rw [String.utf8ByteSize_append, hcolumn, utf8ByteSize_eq_byteLength, String.toList_ofList]
  have hmeets := read_meets (rfl : c.read = c.read)
  generalize c.rest = cs, c.read = reading at hmeets hahead
  cases hmeets with
  | @token gap cs l hgap hl hends =>
    have hword := hahead (gap ++ l.text.toList) cs (List.append_assoc _ _ _).symm
    rw [byteLength_append, ← Nat.add_assoc] at hword
    exact hword
  | finish hgap => exact hahead _ [] (List.append_nil _).symm
  | badChar hgap hblank hstar hstart => exact hahead _ _ rfl

theorem Cursor.In.afterReads {c : Cursor} {src : String} (h : c.In src) (n : Nat) : (c.afterReads n).In src := by
  induction n generalizing c with
  | zero => exact h
  | succ n ih => exact ih h.read

theorem Cursor.In.isValid {c : Cursor} {src : String} (h : c.In src) : String.Pos.Raw.IsValid src ⟨c.column⟩ := by
  obtain ⟨before, hsrc, hcolumn⟩ := h
  rw [String.Pos.Raw.isValid_iff_exists_append]
  exact ⟨before, _, hsrc, congrArg String.Pos.Raw.mk hcolumn.symm⟩

theorem Cursor.start_in (src : String) : (Cursor.start src).In src :=
  ⟨"", by rw [Cursor.start, String.ofList_toList, String.empty_append], rfl⟩

/-- **Reading loses nothing of a text and fails where it must.**  It fails exactly if some character is in the wrong
place, and then names the first such character and its byte.  Otherwise the end is at the last byte, the tokens begin one
after the other and before the end, each stands in the text where it is said to, between two of them there are only
blanks, and between two words there is one.  However often it is asked to go on, the cursor stands between two
characters of the text. -/
theorem tokenize_lossless (src : String) :
    ((∃ bad, tokenize src = .error bad) ↔ ∃ before ch, MisplacedAt src before ch) ∧
    (∀ bad, tokenize src = .error bad →
      ∃ before, MisplacedAt src before bad.ch ∧ before.utf8ByteSize = bad.column ∧
        ∀ earlier ch, ¬MisplacedAt before earlier ch) ∧
    (∀ ts, tokenize src = .ok ts →
      ts.endColumn = src.utf8ByteSize ∧
      (ts.stretches.Pairwise fun a b => a.start < b.start) ∧
      (∀ s ∈ ts.stretches, s.In src) ∧
      (⟨0, ""⟩ :: ts.stretches).IsChain (Apart src)) ∧
    ∀ n, ((Cursor.start src).afterReads n).In src ∧
      String.Pos.Raw.IsValid src ⟨((Cursor.start src).afterReads n).column⟩ := by
  refine ⟨tokenize_eq_error_iff src, fun bad => tokenize_error, fun ts h => ?_, fun n => ?_⟩
  · have hlaid := tokenize_eq_ok_iff.1 h
    refine ⟨?_, hlaid.increasing.2, hlaid.stretches (List.nil_append _).symm rfl rfl nofun⟩
    rw [hlaid.stop_eq, Nat.zero_add, utf8ByteSize_eq_byteLength]
  · have hin := (Cursor.start_in src).afterReads n
    exact ⟨hin, hin.isValid⟩

/-- Blanks of two and three bytes: two words that one of them keeps apart, and a digit that one of them cuts off. -/
theorem tokenize_lossless_wide :
    let good := "struct\u2003s1\t*"
    let wrong := "x1\u00a02*"
    tokenize good = .ok ⟨[⟨.keyword .struct, 0⟩, ⟨.name "s1", 9⟩, ⟨.star, 12⟩], 13⟩ ∧
    good.utf8ByteSize = 13 ∧
    (Stretch.mk 9 "s1").In good ∧
    [⟨0, ""⟩, ⟨0, "struct"⟩, ⟨9, "s1"⟩, ⟨12, "*"⟩, ⟨13, ""⟩].IsChain (Apart good) ∧
    tokenize wrong = .error ⟨'2', 4⟩ ∧
    ∃ before, MisplacedAt wrong before '2' ∧ before.utf8ByteSize = 4 ∧
      ∀ earlier ch, ¬MisplacedAt before earlier ch := by
  intro good wrong
  have hgood : tokenize good = .ok ⟨[⟨.keyword .struct, 0⟩, ⟨.name "s1", 9⟩, ⟨.star, 12⟩], 13⟩ := by decide +kernel
  have hwrong : tokenize wrong = .error ⟨'2', 4⟩ := by decide +kernel
  have hstretches : Tokens.stretches ⟨[⟨.keyword .struct, 0⟩, ⟨.name "s1", 9⟩, ⟨.star, 12⟩], 13⟩ =
      [⟨0, "struct"⟩, ⟨9, "s1"⟩, ⟨12, "*"⟩, ⟨13, ""⟩] := rfl
  obtain ⟨hend, -, hin, hchain⟩ := (tokenize_lossless good).2.2.1 _ hgood
  rw [hstretches] at hin hchain
  have hword := hin ⟨9, "s1"⟩ (List.mem_cons_of_mem _ List.mem_cons_self)
  have herror := (tokenize_lossless wrong).2.1 _ hwrong
  exact ⟨hgood, hend.symm, hword, hchain, hwrong, herror⟩

end Spelling
end CAbi
