import CAbi.Proofs.DeclaredNames
/-!
# UnambiguousText — a declaration tells which body it declares

The printer joins texts, and what keeps them apart again is only which characters they are made of.  A text that is known
to consist of one class of characters, with a character of another class behind it, can be cut off in one way
(`cut_unique`).  So every part is proved unique together with whatever follows it: if the part with one rest is the part
of another body with another rest, then the parts are the same and so are the rests.

The cuts, from the inside out: a bound is digits up to a bracket or a slash; a declarator is a text of words, blanks and
stars up to its bound, and the last word of that is the name; members are declarators up to semicolons, and there is a
member until there is a brace; and a brace also tells an aggregate from a synonym.
-/
namespace CAbi

/-! ## Cuts -/

/-- **A text of one class of characters is cut off in one way.** -/
theorem cut_unique {p : Char → Bool} {as bs as' bs' : List Char} {c c' : Char} (has : as.all p = true)
    (hbs : bs.all p = true) (hc : p c = false) (hc' : p c' = false) (h : as ++ c :: as' = bs ++ c' :: bs') :
    as = bs ∧ c :: as' = c' :: bs' := by
  have hcut : ∀ (xs xs' : List Char) {x : Char}, xs.all p = true → p x = false → (xs ++ x :: xs').takeWhile p = xs := by
    intro xs xs' x hxs hx
    rw [List.takeWhile_append_of_pos (List.all_eq_true.1 hxs), List.takeWhile_cons_of_neg (Bool.eq_false_iff.1 hx),
      List.append_nil]
  have hsame : as = bs := by rw [← hcut as as' has hc, h, hcut bs bs' hbs hc']
  subst hsame
  exact ⟨rfl, List.append_cancel_left h⟩

/-- A word at the end of a text is cut off in one way. -/
theorem word_unique {as bs word word' : List Char} {c c' : Char} (hword : Identifier.valid word = true)
    (hword' : Identifier.valid word' = true) (hc : Identifier.isRest c = false) (hc' : Identifier.isRest c' = false)
    (h : (as ++ [c]) ++ word = (bs ++ [c']) ++ word') : as ++ [c] = bs ++ [c'] ∧ word = word' := by
  have hlast := congrArg (List.rtakeWhile Identifier.isRest) h
  rw [List.append_assoc, List.append_assoc, List.singleton_append, List.singleton_append,
    rtakeWhile_word (Identifier.all_isRest_of_valid hword) hc,
    rtakeWhile_word (Identifier.all_isRest_of_valid hword') hc'] at hlast
  subst hlast
  exact ⟨List.append_cancel_right h, rfl⟩

/-! ## In front of a name -/

theorem endsInStar_beforeName (text : String) : endsInStar (beforeName text) = endsInStar text := by
  unfold beforeName
  by_cases h : endsInStar text = true
  · rw [if_pos h, String.append_empty]
  · rw [if_neg h, Bool.eq_false_iff.2 h]
    exact CType.endsInStar_append text (by decide)

theorem beforeName_injective {a b : String} (h : beforeName a = beforeName b) : a = b := by
  have hstar : endsInStar a = endsInStar b := by rw [← endsInStar_beforeName a, h, endsInStar_beforeName]
  unfold beforeName at h
  rw [hstar] at h
  exact (String.append_left_inj _).1 h

theorem CType.spelling_injective {a b : CType} (ha : a.Spellable) (hb : b.Spellable) (h : a.spelling = b.spelling) :
    a = b := by
  have hread := ofSpelling_spelling ha
  rw [h, ofSpelling_spelling hb] at hread
  cases hread
  rfl

/-! ## Members -/

namespace ArrayLength

/-- The number in a bound. -/
def number : ArrayLength → UInt32
  | .count n => n
  | .bytes n => n

/-- What follows the number. -/
def closing (type : CType) : ArrayLength → String
  | .count _ => "]"
  | .bytes _ => "/sizeof(" ++ type.elementSpelling ++ ")]"

/-- **A bound from its number on tells the length**, and what follows. -/
theorem closing_unique (type : CType) {l l' : ArrayLength} {rest rest' : List Char}
    (h : l.number.toNat.repr.toList ++ ((l.closing type).toList ++ rest) =
      l'.number.toNat.repr.toList ++ ((l'.closing type).toList ++ rest')) : l = l' ∧ rest = rest' := by
  have hcons : ∀ (l : ArrayLength) (rest : List Char),
      ∃ c cs, (l.closing type).toList ++ rest = c :: cs ∧ c.isDigit = false := by
    intro l rest
    cases l with
    | count n => exact ⟨']', rest, by simp [closing], by decide⟩
    | bytes n => exact ⟨'/', _, by simp [closing]; rfl, by decide⟩
  obtain ⟨c, cs, hc, hdigit⟩ := hcons l rest
  obtain ⟨c', cs', hc', hdigit'⟩ := hcons l' rest'
  rw [hc, hc'] at h
  obtain ⟨hrepr, htail⟩ := cut_unique (all_isDigit_repr _) (all_isDigit_repr _) hdigit hdigit' h
  have hnumber : l.number = l'.number := by
    rw [Nat.toList_repr, Nat.toList_repr] at hrepr
    rw [← UInt32.toNat_inj, ← Nat.ofDigitChars_ten_toDigits (n := l.number.toNat), hrepr,
      Nat.ofDigitChars_ten_toDigits]
  rw [← hc, ← hc'] at htail
  -- the number is the same, and the next character tells the two kinds of length apart
  cases l with
  | count m =>
    cases l' with
    | count n => exact ⟨congrArg count hnumber, by simpa [closing] using htail⟩
    | bytes n => simp [closing] at htail
  | bytes m =>
    cases l' with
    | count n => simp [closing] at htail
    | bytes n => exact ⟨congrArg bytes hnumber, by simpa [closing] using htail⟩

end ArrayLength

/-- **A member in words of C.** -/
structure Field.Spelled (f : Field) : Prop where
  type : f.type.Spellable
  name : Identifier.valid f.name.toList = true

namespace Field

variable {f g : Field} {rest rest' : List Char}

theorem Spelled.words (h : f.Spelled) : ∀ w ∈ f.type.base.word?, Identifier.valid w.toList = true :=
  CType.word_valid_of_ofSpelling (CType.ofSpelling_spelling h.type)

theorem Spelled.all_isTextChar (h : f.Spelled) : f.declarator.toList.all isTextChar = true :=
  Field.all_isTextChar h.words h.name

theorem Spelled.all_isTextChar_head (h : f.Spelled) :
    (beforeName f.type.spelling ++ f.name).toList.all CType.isTextChar = true := by
  simp only [beforeName, String.toList_append, List.all_append, CType.all_isTextChar h.words,
    Identifier.all_isTextChar h.name]
  split <;> decide

theorem bound_of_some {l : ArrayLength} (h : f.length = some l) :
    f.bound = "[" ++ l.number.toNat.repr ++ l.closing f.type := by
  unfold bound
  cases l <;> simp [h, ArrayLength.number, ArrayLength.closing, String.append_assoc]

/-- A bound begins with a character that is in no type, or is not there. -/
theorem bound_cons (f : Field) (rest : List Char) :
    ∃ c cs, f.bound.toList ++ ';' :: rest = c :: cs ∧ CType.isTextChar c = false := by
  cases h : f.length with
  | none => exact ⟨';', rest, by simp [bound, h], by decide⟩
  | some l => exact ⟨'[', _, by rw [bound_of_some h]; simp; rfl, by decide⟩

theorem bound_unique (htype : f.type = g.type) (h : f.bound.toList ++ ';' :: rest = g.bound.toList ++ ';' :: rest') :
    f.length = g.length ∧ rest = rest' := by
  cases hf : f.length with
  | none =>
    cases hg : g.length with
    | none => exact ⟨rfl, by simpa [bound, hf, hg] using h⟩
    | some l' =>
      rw [bound_of_some hg] at h
      simp [bound, hf] at h
  | some l =>
    cases hg : g.length with
    | none =>
      rw [bound_of_some hf] at h
      simp [bound, hg] at h
    | some l' =>
      rw [bound_of_some hf, bound_of_some hg, htype] at h
      obtain ⟨rfl, hrest⟩ := ArrayLength.closing_unique g.type (by simpa [-Nat.toList_repr] using h)
      exact ⟨rfl, List.tail_eq_of_cons_eq hrest⟩

/-- **A declarator up to its semicolon tells the member**, and what follows. -/
theorem declarator_unique (hf : f.Spelled) (hg : g.Spelled)
    (h : f.declarator.toList ++ ';' :: rest = g.declarator.toList ++ ';' :: rest') : f = g ∧ rest = rest' := by
  rw [declarator_eq, declarator_eq, String.toList_append, String.toList_append (t := g.bound), List.append_assoc,
    List.append_assoc] at h
  obtain ⟨c, cs, hbound, hc⟩ := f.bound_cons rest
  obtain ⟨c', cs', hbound', hc'⟩ := g.bound_cons rest'
  rw [hbound, hbound'] at h
  obtain ⟨hhead, htail⟩ := cut_unique hf.all_isTextChar_head hg.all_isTextChar_head hc hc' h
  rw [← hbound, ← hbound'] at htail
  -- in front of the bound, the name is the last word
  obtain ⟨as, a, has, ha⟩ := beforeName_ends f.type.spelling
  obtain ⟨bs, b, hbs, hb⟩ := beforeName_ends g.type.spelling
  rw [String.toList_append, String.toList_append, has, hbs] at hhead
  obtain ⟨hbefore, hname⟩ := word_unique hf.name hg.name ha hb hhead
  rw [← has, ← hbs] at hbefore
  have htype : f.type = g.type :=
    CType.spelling_injective hf.type hg.type (beforeName_injective (String.toList_inj.1 hbefore))
  obtain ⟨hlength, hrest⟩ := bound_unique htype htail
  refine ⟨?_, hrest⟩
  obtain ⟨name, type, length⟩ := f
  obtain ⟨name', type', length'⟩ := g
  cases htype
  cases hlength
  cases String.toList_inj.1 hname
  rfl

end Field

/-- The members of an aggregate, between its braces. -/
def memberChars : List Field → List Char
  | [] => []
  | f :: fs => f.declarator.toList ++ ';' :: ' ' :: memberChars fs

theorem memberChars_cons (f : Field) (fs : List Field) (rest : List Char) :
    memberChars (f :: fs) ++ rest = f.declarator.toList ++ ';' :: ' ' :: (memberChars fs ++ rest) :=
  List.append_assoc _ _ _

theorem toList_membersText (fs : List Field) :
    (membersText fs).toList = '\x7b' :: ' ' :: (memberChars fs ++ ['\x7d']) := by
  have hjoin : (String.join (fs.map fun f => f.declarator ++ "; ")).toList = memberChars fs := by
    induction fs with
    | nil => rfl
    | cons f fs ih =>
      rw [List.map_cons, String.join_cons, String.toList_append, ih, memberChars]
      simp
  simp only [membersText, String.toList_append, hjoin]
  rfl

/-- **Members up to the closing brace tell which they are**, and what follows. -/
theorem memberChars_unique {fs gs : List Field} {rest rest' : List Char} (hfs : ∀ f ∈ fs, f.Spelled)
    (hgs : ∀ g ∈ gs, g.Spelled) (h : memberChars fs ++ '\x7d' :: rest = memberChars gs ++ '\x7d' :: rest') :
    fs = gs ∧ rest = rest' := by
  -- a member ends in a semicolon, and no member has a brace before it
  have hmore : ∀ {f : Field} {cs cs' : List Char}, f.Spelled → '\x7d' :: cs ≠ f.declarator.toList ++ ';' :: cs' := by
    intro f cs cs' hf h
    have hnil : ([] : List Char).all Field.isTextChar = true := rfl
    have hends := (cut_unique hnil hf.all_isTextChar (by decide) (by decide) h).2
    simp at hends
  induction fs generalizing gs with
  | nil =>
    cases gs with
    | nil => exact ⟨rfl, List.tail_eq_of_cons_eq h⟩
    | cons g gs =>
      rw [memberChars_cons] at h
      exact absurd h (hmore (hgs g List.mem_cons_self))
  | cons f fs ih =>
    have hf := hfs f List.mem_cons_self
    cases gs with
    | nil =>
      rw [memberChars_cons] at h
      exact absurd h.symm (hmore hf)
    | cons g gs =>
      rw [memberChars_cons, memberChars_cons] at h
      obtain ⟨rfl, htail⟩ := Field.declarator_unique hf (hgs g List.mem_cons_self) h
      obtain ⟨rfl, hrest⟩ := ih (fun f hf => hfs f (List.mem_cons_of_mem _ hf))
        (fun g hg => hgs g (List.mem_cons_of_mem _ hg)) (List.tail_eq_of_cons_eq htail)
      exact ⟨rfl, hrest⟩

/-! ## Bodies -/

theorem Body.Spelled.spellable {b : Body} (h : b.Spelled) {type : CType} (hmem : type ∈ b.types) : type.Spellable := by
  obtain ⟨src, hsrc⟩ := h.types type hmem
  exact CType.spellable_of_ofSpelling hsrc

theorem Body.Spelled.member {b : Body} (h : b.Spelled) {f : Field} (hf : f ∈ b.members) : f.Spelled :=
  ⟨h.spellable (type_mem_types hf), h.members f hf⟩

theorem AggregateKind.keyword_injective {k k' : AggregateKind} (h : k.keyword = k'.keyword) : k = k' := by
  revert h
  cases k <;> cases k' <;> decide

theorem Record.tag_eq_of_tagText_eq {r r' : Record} (h : r.tagText = r'.tagText) : r.tag = r'.tag := by
  have hempty : ∀ tag : String, tag ++ " " ≠ "" := by
    intro tag htag
    have hchars := congrArg String.toList htag
    simp at hchars
  unfold tagText at h
  cases htag : r.tag with
  | none =>
    cases htag' : r'.tag with
    | none => rfl
    | some tag' =>
      rw [htag, htag'] at h
      exact absurd h.symm (hempty tag')
  | some tag =>
    cases htag' : r'.tag with
    | none =>
      rw [htag, htag'] at h
      exact absurd h (hempty tag)
    | some tag' =>
      rw [htag, htag'] at h
      exact congrArg some ((String.append_left_inj _).1 h)

theorem Record.all_isTextChar_tagText {r : Record} (h : ∀ tag ∈ r.tag, Identifier.valid tag.toList = true) :
    r.tagText.toList.all CType.isTextChar = true := by
  unfold tagText
  cases htag : r.tag with
  | none => decide
  | some tag =>
    simp only [String.toList_append, List.all_append, Identifier.all_isTextChar (h tag htag)]
    decide

/-- **An aggregate up to its opening brace tells its keyword and its tag**, and what follows. -/
theorem aggregateHead_unique {k k' : AggregateKind} {tag tag' rest rest' : List Char}
    (htag : tag.all CType.isTextChar = true) (htag' : tag'.all CType.isTextChar = true)
    (h : k.keyword.toList ++ ' ' :: (tag ++ '\x7b' :: rest) = k'.keyword.toList ++ ' ' :: (tag' ++ '\x7b' :: rest')) :
    k = k' ∧ tag = tag' ∧ rest = rest' := by
  have hword : ∀ k : AggregateKind, k.keyword.toList.all Identifier.isRest = true := by
    intro k
    cases k <;> decide
  obtain ⟨hkeyword, htail⟩ := cut_unique (hword k) (hword k') (by decide) (by decide) h
  obtain ⟨htags, hrest⟩ := cut_unique htag htag' (by decide) (by decide) (List.tail_eq_of_cons_eq htail)
  exact ⟨AggregateKind.keyword_injective (String.toList_inj.1 hkeyword), htags, List.tail_eq_of_cons_eq hrest⟩

/-- No member begins as the union of a handle does. -/
theorem memberChars_ne_union {fs : List Field} (hfs : ∀ f ∈ fs, f.Spelled) {rest rest' : List Char} :
    memberChars fs ++ '\x7d' :: rest ≠ "union ".toList ++ '\x7b' :: rest' := by
  intro h
  cases fs with
  | nil => simp [memberChars] at h
  | cons f fs =>
    rw [memberChars_cons] at h
    have hf := (hfs f List.mem_cons_self).all_isTextChar
    have hends := (cut_unique hf (by decide) (by decide) (by decide) h).2
    simp at hends

namespace Body

theorem toList_specifier_record (r : Record) : (specifier (.record r)).toList =
    r.kind.keyword.toList ++ ' ' :: (r.tagText.toList ++ '\x7b' :: ' ' :: (memberChars r.fields ++ ['\x7d'])) := by
  simp [specifier_record, toList_membersText]

theorem toList_specifier_opaqueHandle (views : List Field) : (specifier (.opaqueHandle views)).toList =
    AggregateKind.struct.keyword.toList ++ ' ' :: ([] ++ '\x7b' :: ' ' ::
      ("union ".toList ++ '\x7b' :: ' ' :: (memberChars views ++ '\x7d' :: " __u; \x7d".toList))) := by
  simp [specifier_opaqueHandle, toList_membersText, AggregateKind.keyword]

variable {b₁ b₂ : Body}

theorem brace_mem_specifier_iff {b : Body} (h : b.Spelled) :
    '\x7b' ∈ b.specifier.toList ↔ ∀ type, b ≠ .synonym type := by
  cases b with
  | synonym type =>
    have hmem : '\x7b' ∉ type.spelling.toList :=
      not_mem_of_all (CType.all_isTextChar (h.words type (List.mem_singleton.2 rfl))) (by decide)
    simp [specifier_synonym, hmem]
  | record r => simp [toList_specifier_record]
  | opaqueHandle views => simp [toList_specifier_opaqueHandle]

theorem specifier_record_ne_opaqueHandle {r : Record} (h : (Body.record r).Spelled) (views : List Field) :
    specifier (.record r) ≠ specifier (.opaqueHandle views) := by
  intro heq
  rw [← String.toList_inj, toList_specifier_record, toList_specifier_opaqueHandle] at heq
  obtain ⟨-, -, hrest⟩ := aggregateHead_unique (Record.all_isTextChar_tagText h.tag) rfl heq
  exact memberChars_ne_union (fun f hf => h.member hf) (List.tail_eq_of_cons_eq hrest)

/-- **The type that is declared tells the body**, but for whether the name is declared with it. -/
theorem specifier_injective (h₁ : b₁.Spelled) (h₂ : b₂.Spelled) (hflag : b₁.isTagOnly = b₂.isTagOnly)
    (h : b₁.specifier = b₂.specifier) : b₁ = b₂ := by
  have hbrace : (∀ type, b₁ ≠ .synonym type) ↔ ∀ type, b₂ ≠ .synonym type := by
    rw [← brace_mem_specifier_iff h₁, ← brace_mem_specifier_iff h₂, h]
  match b₁, b₂ with
  | .synonym type, .synonym type' =>
    have htype := h₁.spellable (List.mem_singleton.2 rfl)
    have htype' := h₂.spellable (List.mem_singleton.2 rfl)
    exact congrArg synonym (CType.spelling_injective htype htype' h)
  | .synonym type, .record r => exact absurd rfl (hbrace.2 nofun type)
  | .synonym type, .opaqueHandle views => exact absurd rfl (hbrace.2 nofun type)
  | .record r, .synonym type => exact absurd rfl (hbrace.1 nofun type)
  | .opaqueHandle views, .synonym type => exact absurd rfl (hbrace.1 nofun type)
  | .record r, .opaqueHandle views => exact absurd h (specifier_record_ne_opaqueHandle h₁ views)
  | .opaqueHandle views, .record r => exact absurd h.symm (specifier_record_ne_opaqueHandle h₂ views)
  | .record r, .record r' =>
    rw [← String.toList_inj, toList_specifier_record, toList_specifier_record] at h
    obtain ⟨hkind, htag, hrest⟩ :=
      aggregateHead_unique (Record.all_isTextChar_tagText h₁.tag) (Record.all_isTextChar_tagText h₂.tag) h
    obtain ⟨hfields, -⟩ := memberChars_unique (fun f hf => h₁.member hf) (fun f hf => h₂.member hf)
      (List.tail_eq_of_cons_eq hrest)
    have htag := Record.tag_eq_of_tagText_eq (String.toList_inj.1 htag)
    obtain ⟨kind, tag, tagOnly, fields⟩ := r
    obtain ⟨kind', tag', tagOnly', fields'⟩ := r'
    cases hkind
    cases htag
    cases hfields
    cases (hflag : tagOnly = tagOnly')
    rfl
  | .opaqueHandle views, .opaqueHandle views' =>
    rw [← String.toList_inj, toList_specifier_opaqueHandle, toList_specifier_opaqueHandle] at h
    obtain ⟨-, -, hrest⟩ := aggregateHead_unique rfl rfl h
    have hunion := List.append_cancel_left (List.tail_eq_of_cons_eq hrest)
    obtain ⟨hviews, -⟩ := memberChars_unique (fun f hf => h₁.member hf) (fun f hf => h₂.member hf)
      (List.tail_eq_of_cons_eq (List.tail_eq_of_cons_eq hunion))
    exact congrArg opaqueHandle hviews

/-- **A declaration tells which body it declares.**  Two bodies without defects, in words of C, have the same portable
text under an identifier only if they are the same: in shape, kind, tag and form, and with the same members in the same
order. -/
theorem declaration_eq_iff {name : String} (hname : Identifier.valid name.toList = true)
    (hd₁ : ({ name, body := b₁ } : Entry).bodyDefects = []) (hd₂ : ({ name, body := b₂ } : Entry).bodyDefects = [])
    (h₁ : b₁.Spelled) (h₂ : b₂.Spelled) (t : Target) :
    (Style.portable.apply t b₁).declaration name = (Style.portable.apply t b₂).declaration name ↔ b₁ = b₂ := by
  refine ⟨fun h => ?_, fun h => by rw [h]⟩
  have h : b₁.declaration name = b₂.declaration name := h
  have htag₁ := ((Entry.bodyDefects_eq_nil_iff _).1 hd₁).tag_ne_none
  have htag₂ := ((Entry.bodyDefects_eq_nil_iff _).1 hd₂).tag_ne_none
  -- the text alone shows whether it introduces the name
  have hform := typedefName?_declaration_iff htag₁ name
  rw [h, typedefName?_declaration_iff htag₂ name] at hform
  have hflag : b₁.isTagOnly = b₂.isTagOnly := by
    simpa [hname] using hform.symm
  refine specifier_injective h₁ h₂ hflag ?_
  by_cases honly : b₂.isTagOnly = true
  · rw [declaration_of_isTagOnly (hflag.trans honly) (htag₁ (hflag.trans honly)),
      declaration_of_isTagOnly honly (htag₂ honly)] at h
    exact (String.append_left_inj _).1 h
  · have honly : b₂.isTagOnly = false := Bool.eq_false_iff.2 honly
    rw [declaration_of_isTagOnly_eq_false (hflag.trans honly), declaration_of_isTagOnly_eq_false honly] at h
    exact beforeName_injective
      ((String.append_right_inj _).1 ((String.append_left_inj _).1 ((String.append_left_inj _).1 h)))

/-- A handle, and a struct whose only member has the name and the keyword of the handle's. -/
theorem declaration_eq_iff_lock :
    let handle : Body := .opaqueHandle [{ name := "__i", type := .scalar (.plain .int), length := some (.count 6) }]
    let struct : Body := .record { fields := [{ name := "__u", type := ⟨.tagged .union "__i", false, []⟩ }] }
    let t : Target := .ofModel "" .lp64
    (Style.portable.apply t handle).declaration "lock_t" =
      "typedef struct \x7b union \x7b int __i[6]; \x7d __u; \x7d lock_t;" ∧
    (Style.portable.apply t struct).declaration "lock_t" = "typedef struct \x7b union __i __u; \x7d lock_t;" ∧
    handle.Spelled ∧ struct.Spelled ∧
    (Style.portable.apply t handle).declaration "lock_t" ≠ (Style.portable.apply t struct).declaration "lock_t" := by
  intro handle struct t
  have hread : ∀ type : CType, type.Spellable → ∀ type' ∈ [type], ∃ src, CType.ofSpelling src = .ok type' := by
    intro type h type' hmem
    rw [List.mem_singleton.1 hmem]
    exact ⟨_, CType.ofSpelling_spelling h⟩
  have hhandle : handle.Spelled := ⟨hread _ (by decide), by decide, by decide⟩
  have hstruct : struct.Spelled := ⟨hread _ (by decide), by decide, by decide⟩
  refine ⟨by decide +kernel, by decide +kernel, hhandle, hstruct, ?_⟩
  rw [Ne, declaration_eq_iff (by decide) (by decide) (by decide) hhandle hstruct t]
  decide

end Body

end CAbi
