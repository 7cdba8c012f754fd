import CAbi.Proofs.TokenLayout
/-!
# FirstFault — a spelling is refused at the first token that cannot stand there

Two things make the place of a refusal the right one.

Of the lexemes it leaves, each reader has looked at the first only (`Takes`).  It may consume several words before it
decides, and it may give up or be content without consuming any; but whatever it answers, it answers the same in front of
everything that begins with that lexeme.  So a refusal is one of all sequences that begin with what was taken and the
lexeme it stops at (`readType_takes`).

What was taken, on the other hand, begins a type: if a base was being read, `int` would have completed it, since it can
stand alone, after a sign keyword and as a tag (`takeBase_error`); and if the base was there, all that was taken is a
spelling (`readType_error`).
-/
namespace CAbi
namespace Spelling

/-! ## One lexeme ahead -/

/-- **Of what it left, the reader has seen the first lexeme only**: with anything in its place that begins alike, it takes
the same and leaves that. -/
def Takes {β : Type} (f : List Lexeme → β) (ls rest : List Lexeme) (result : List Lexeme → β) : Prop :=
  ∃ taken, ls = taken ++ rest ∧ ∀ rest', rest'.head? = rest.head? → f (taken ++ rest') = result rest'

namespace Takes

variable {β γ δ : Type} {f : List Lexeme → β} {g : List Lexeme → γ} {ls rest : List Lexeme}

theorem nothing {result : List Lexeme → β} (h : ∀ ls', ls'.head? = ls.head? → f ls' = result ls') :
    Takes f ls ls result := ⟨[], rfl, h⟩

theorem cons {result : List Lexeme → β} {l : Lexeme} (h : Takes (fun ls => f (l :: ls)) ls rest result) :
    Takes f (l :: ls) rest result := by
  obtain ⟨taken, hls, htakes⟩ := h
  exact ⟨l :: taken, congrArg _ hls, htakes⟩

/-- A reader whose outcome follows from that of another one and from the first lexeme. -/
theorem imp {result : List Lexeme → γ} {result' : List Lexeme → β} (h : Takes g ls rest result)
    (hf : ∀ ls' rest', ls'.head? = ls.head? → g ls' = result rest' → f ls' = result' rest') :
    Takes f ls rest result' := by
  obtain ⟨taken, hls, htakes⟩ := h
  refine ⟨taken, hls, fun rest' hhead => hf _ _ ?_ (htakes rest' hhead)⟩
  rw [hls, List.head?_append, List.head?_append, hhead]

/-- One reader after the other. -/
theorem andThen {k : List Lexeme → δ} {mid : List Lexeme} {between : List Lexeme → γ} {result : List Lexeme → δ}
    {result' : List Lexeme → β} (h : Takes g ls mid between) (h' : Takes k mid rest result)
    (hf : ∀ ls' mid' rest', rest'.head? = rest.head? → g ls' = between mid' → k mid' = result rest' →
      f ls' = result' rest') : Takes f ls rest result' := by
  obtain ⟨taken, hls, htakes⟩ := h
  obtain ⟨taken', hmid, htakes'⟩ := h'
  refine ⟨taken ++ taken', by rw [hls, hmid, List.append_assoc], fun rest' hhead => ?_⟩
  have hhead' : (taken' ++ rest').head? = mid.head? := by
    rw [hmid, List.head?_append, List.head?_append, hhead]
  rw [List.append_assoc]
  exact hf _ _ _ hhead (htakes _ hhead') (htakes' rest' hhead)

end Takes

/-- Lexemes that do not begin with `l` are told by the first of them. -/
theorem ne_cons_of_head?_eq {l : Lexeme} {ls ls' : List Lexeme} (h : ∀ rest, ls = l :: rest → False)
    (hhead : ls'.head? = ls.head?) : ∀ rest, ls' = l :: rest → False := by
  rintro rest rfl
  cases ls with
  | nil => cases hhead
  | cons l' ls =>
    cases hhead
    exact h ls rfl

theorem takeVolatiles_takes (ls : List Lexeme) :
    Takes takeVolatiles ls (takeVolatiles ls).2 fun rest => ((takeVolatiles ls).1, rest) := by
  fun_induction takeVolatiles ls with
  | case1 ls ih => exact (ih.imp fun _ _ _ h => congrArg (fun p => (true, p.2)) h).cons
  | case2 ls hvolatile =>
    refine .nothing fun ls' hhead => ?_
    rw [takeVolatiles]
    exact ne_cons_of_head?_eq hvolatile hhead

theorem skipInt_takes (ls : List Lexeme) : Takes skipInt ls (skipInt ls) id := by
  fun_cases skipInt ls with
  | case1 ls => exact .cons (.nothing fun _ _ => rfl)
  | case2 ls hint =>
    refine .nothing fun ls' hhead => ?_
    rw [skipInt]
    · rfl
    · exact ne_cons_of_head?_eq hint hhead

theorem takeInteger?_takes {l : Lexeme} {ls rest : List Lexeme} {kind : ScalarKind}
    (h : takeInteger? (l :: ls) = some (kind, rest)) :
    Takes (fun ls => takeInteger? (l :: ls)) ls rest fun rest => some (kind, rest) := by
  unfold takeInteger? at h
  split at h
  · rename_i heq; cases heq; cases h; exact .nothing fun _ _ => rfl
  · rename_i heq; cases heq; cases h
    exact (skipInt_takes ls).imp fun _ _ _ h => congrArg (fun rest => some (ScalarKind.short, rest)) h
  · rename_i heq; cases heq; cases h; exact .nothing fun _ _ => rfl
  · rename_i ls heq; cases heq; cases h
    exact ((skipInt_takes ls).imp fun _ _ _ h => congrArg (fun rest => some (ScalarKind.longLong, rest)) h).cons
  · rename_i hlong heq; cases heq; cases h
    refine (skipInt_takes ls).imp fun ls' rest' hhead h => ?_
    rw [takeInteger?, h]
    · rfl
    · exact ne_cons_of_head?_eq (fun rest => hlong rest) hhead
  · rename_i heq; cases heq; cases h; exact .nothing fun _ _ => rfl
  · rename_i heq; cases heq; cases h; exact .nothing fun _ _ => rfl
  · rename_i heq; cases heq; cases h; exact .nothing fun _ _ => rfl
  · cases h

theorem takeInteger?_eq_none_of_head? {ls ls' : List Lexeme} (h : takeInteger? ls = none)
    (hhead : ls'.head? = ls.head?) : takeInteger? ls' = none := by
  unfold takeInteger? at h
  split at h
  iterate 8 · cases h
  rename_i hchar hshort hint hlongLong hlong haddr hint64 hreg
  rw [takeInteger?]
  · exact ne_cons_of_head?_eq hchar hhead
  · exact ne_cons_of_head?_eq hshort hhead
  · exact ne_cons_of_head?_eq hint hhead
  · exact fun rest => ne_cons_of_head?_eq hlong hhead (.keyword .long :: rest)
  · exact ne_cons_of_head?_eq hlong hhead
  · exact ne_cons_of_head?_eq haddr hhead
  · exact ne_cons_of_head?_eq hint64 hhead
  · exact ne_cons_of_head?_eq hreg hhead

/-! ## Readers of a base -/

/-- What the reader of a base leaves, whether it succeeds or not. -/
def leftOf : Except Stop (Base × List Lexeme) → List Lexeme
  | .ok (_, rest) => rest
  | .error stop => stop.rest

/-- The same outcome in front of other lexemes. -/
def withLeft : Except Stop (Base × List Lexeme) → List Lexeme → Except Stop (Base × List Lexeme)
  | .ok (b, _), rest => .ok (b, rest)
  | .error stop, rest => .error ⟨stop.expected, rest⟩

theorem takeTag_takes (kind : AggregateKind) (ls : List Lexeme) :
    Takes (takeTag kind) ls (leftOf (takeTag kind ls)) (withLeft (takeTag kind ls)) := by
  fun_cases takeTag kind ls with
  | case1 k ls => exact .cons (.nothing fun _ _ => rfl)
  | case2 s ls => exact .cons (.nothing fun _ _ => rfl)
  | case3 ls hkeyword hname =>
    refine .nothing fun ls' hhead => ?_
    rw [takeTag]
    · rfl
    · exact fun k => ne_cons_of_head?_eq (hkeyword k) hhead
    · exact fun s => ne_cons_of_head?_eq (hname s) hhead

theorem takeOther_takes (ls : List Lexeme) :
    Takes takeOther ls (leftOf (takeOther ls)) (withLeft (takeOther ls)) := by
  fun_cases takeOther ls with
  | case1 ls => exact .cons (.nothing fun _ _ => rfl)
  | case2 ls => exact .cons (.nothing fun _ _ => rfl)
  | case3 ls => exact .cons (.nothing fun _ _ => rfl)
  | case4 ls => exact .cons (takeTag_takes .struct ls)
  | case5 ls => exact .cons (takeTag_takes .union ls)
  | case6 s ls => exact .cons (.nothing fun _ _ => rfl)
  | case7 ls hfloat hdouble hvoid hstruct hunion hname =>
    refine .nothing fun ls' hhead => ?_
    rw [takeOther]
    · rfl
    · exact ne_cons_of_head?_eq hfloat hhead
    · exact ne_cons_of_head?_eq hdouble hhead
    · exact ne_cons_of_head?_eq hvoid hhead
    · exact ne_cons_of_head?_eq hstruct hhead
    · exact ne_cons_of_head?_eq hunion hhead
    · exact fun s => ne_cons_of_head?_eq (hname s) hhead

theorem takePlain_takes (ls : List Lexeme) :
    Takes takePlain ls (leftOf (takePlain ls)) (withLeft (takePlain ls)) := by
  fun_cases takePlain ls with
  | case1 ls => exact .cons (.cons (.nothing fun _ _ => rfl))
  | case2 ls hdouble kind rest hint =>
    cases ls with
    | nil => cases hint
    | cons l ls =>
      refine .cons ((takeInteger?_takes hint).imp fun ls' rest' hhead h => ?_)
      rw [takePlain, h]
      · rfl
      · rintro rest' heq
        cases heq
        exact ne_cons_of_head?_eq (fun rest hls => hdouble rest (congrArg _ hls)) hhead _ rfl
  | case3 ls hdouble hint =>
    refine (takeOther_takes ls).imp fun ls' rest' hhead h => ?_
    have hnone := takeInteger?_eq_none_of_head? hint hhead
    rw [takePlain, hnone]
    · exact h
    · rintro rest' rfl
      cases hnone

theorem refusesSign_eq_of_head? {ls ls' : List Lexeme} (hhead : ls'.head? = ls.head?) :
    refusesSign ls' = refusesSign ls := by
  cases ls with
  | nil => rw [List.head?_eq_none_iff.1 hhead]
  | cons l ls =>
    obtain ⟨rest, rfl⟩ := List.head?_eq_some_iff.1 hhead
    cases l with
    | keyword k => cases k <;> rfl
    | name s => rfl
    | star => rfl

theorem takeSigned_takes (sign : Sign) (ls : List Lexeme) :
    Takes (takeSigned sign) ls (leftOf (takeSigned sign ls)) (withLeft (takeSigned sign ls)) := by
  fun_cases takeSigned sign ls with
  | case1 kind rest hint =>
    cases ls with
    | nil => cases hint
    | cons l ls =>
      refine .cons ((takeInteger?_takes hint).imp fun ls' rest' hhead h => ?_)
      rw [takeSigned, h]
      rfl
  | case2 hint hrefuses =>
    refine .nothing fun ls' hhead => ?_
    rw [takeSigned, takeInteger?_eq_none_of_head? hint hhead, refusesSign_eq_of_head? hhead]
    exact if_pos hrefuses
  | case3 hint hrefuses =>
    refine .nothing fun ls' hhead => ?_
    rw [takeSigned, takeInteger?_eq_none_of_head? hint hhead, refusesSign_eq_of_head? hhead]
    exact if_neg hrefuses

theorem takeBase_takes (ls : List Lexeme) :
    Takes takeBase ls (leftOf (takeBase ls)) (withLeft (takeBase ls)) := by
  fun_cases takeSign ls with
  | case1 ls => exact .cons (takeSigned_takes .unsigned ls)
  | case2 ls => exact .cons (takeSigned_takes .signed ls)
  | case3 ls hunsigned hsigned =>
    have hplain : ∀ ls', ls'.head? = ls.head? → takeBase ls' = takePlain ls' := fun ls' hhead => by
      rw [takeBase, takeSign]
      · exact ne_cons_of_head?_eq hunsigned hhead
      · exact ne_cons_of_head?_eq hsigned hhead
    rw [hplain ls rfl]
    exact (takePlain_takes ls).imp fun ls' rest' hhead h => (hplain ls' hhead).trans h

/-! ## The whole spelling -/

theorem takeLevels_takes (v : Bool) (ls : List Lexeme) :
    Takes (takeLevels v) ls (takeLevels v ls).2 fun rest => ((takeLevels v ls).1, rest) := by
  fun_induction takeLevels v ls with
  | case1 v ls ih => exact .cons ih
  | case2 v ls above ih => exact .cons (ih.imp fun _ _ _ h => congrArg (fun above => (v :: above.1, above.2)) h)
  | case3 v ls hvolatile hstar =>
    refine .nothing fun ls' hhead => ?_
    rw [takeLevels]
    · exact ne_cons_of_head?_eq hvolatile hhead
    · exact ne_cons_of_head?_eq hstar hhead

theorem takePointers_takes (ls : List Lexeme) :
    Takes takePointers ls (takePointers ls).2 fun rest => ((takePointers ls).1, rest) := by
  fun_cases takePointers ls with
  | case1 ls => exact .cons (takeLevels_takes false ls)
  | case2 ls hstar =>
    refine .nothing fun ls' hhead => ?_
    rw [takePointers]
    exact ne_cons_of_head?_eq hstar hhead

/-- **A refusal depends on what was taken and on the lexeme it stops at.** -/
theorem readType_takes {ls : List Lexeme} {stop : Stop} (h : readType ls = .error stop) :
    Takes readType ls stop.rest fun rest => .error ⟨stop.expected, rest⟩ := by
  have hqualified : Takes (fun ls => takeBase (takeVolatiles ls).2) ls (leftOf (takeBase (takeVolatiles ls).2))
      (withLeft (takeBase (takeVolatiles ls).2)) :=
    (takeVolatiles_takes ls).andThen (takeBase_takes _) fun ls' mid' rest' _ hvolatiles hbase => by
      rw [hvolatiles]
      exact hbase
  unfold readType at h
  split at h
  · rename_i stop' hbase
    cases h
    rw [hbase] at hqualified
    refine hqualified.imp fun ls' rest' _ hbase' => ?_
    rw [readType, hbase']
    rfl
  · rename_i base ls' hbase
    rw [hbase] at hqualified
    split at h
    · cases h
    · rename_i pointers rest hrest hpointers
      cases h
      have hlevels := takePointers_takes ls'
      rw [hpointers] at hlevels
      refine hqualified.andThen hlevels fun ls' mid' rest' hhead hbase' hpointers' => ?_
      rw [readType, hbase']
      dsimp only [withLeft]
      rw [hpointers']
      -- there is a lexeme left, and it is the same one
      cases rest' with
      | nil => exact absurd (List.head?_eq_none_iff.1 hhead.symm) hrest
      | cons l rest' => rfl

/-! ## What was taken begins a type -/

theorem takeTag_error {kind : AggregateKind} {ls : List Lexeme} {stop : Stop} (h : takeTag kind ls = .error stop) :
    ls = stop.rest := by
  unfold takeTag at h
  split at h
  · cases h
  · cases h
  · cases h
    rfl

theorem takeOther_error {ls : List Lexeme} {stop : Stop} (h : takeOther ls = .error stop) :
    ∃ bs b, ls = bs ++ stop.rest ∧ BaseSpelling (bs.map (·.text) ++ ["int"]) b := by
  unfold takeOther at h
  split at h
  · cases h
  · cases h
  · cases h
  · rw [takeTag_error h]
    exact ⟨[.keyword .struct], _, rfl, .struct (by decide)⟩
  · rw [takeTag_error h]
    exact ⟨[.keyword .union], _, rfl, .union (by decide)⟩
  · cases h
  · cases h
    exact ⟨[], _, rfl, .integer .int⟩

theorem takePlain_error {ls : List Lexeme} {stop : Stop} (h : takePlain ls = .error stop) :
    takeOther ls = .error stop := by
  unfold takePlain at h
  split at h
  · cases h
  · split at h
    · cases h
    · exact h

theorem takeSigned_error {sign : Sign} {ls : List Lexeme} {stop : Stop} (h : takeSigned sign ls = .error stop) :
    ls = stop.rest := by
  unfold takeSigned at h
  split at h
  · cases h
  · split at h
    · cases h
      rfl
    · cases h

/-- **Where no base can be read further, `int` would have completed one.** -/
theorem takeBase_error {ls : List Lexeme} {stop : Stop} (h : takeBase ls = .error stop) :
    ∃ bs b, ls = bs ++ stop.rest ∧ BaseSpelling (bs.map (·.text) ++ ["int"]) b := by
  unfold takeBase takeSign at h
  split at h
  · rename_i ls' hsign
    split at hsign
    · cases hsign
    · cases hsign
    · cases hsign
      exact takeOther_error (takePlain_error h)
  · rename_i sign ls' hplain hsign
    split at hsign
    · cases hsign
      exact ⟨[.keyword .unsigned], _, congrArg _ (takeSigned_error h), .signedInteger .unsigned .int⟩
    · cases hsign
      exact ⟨[.keyword .signed], _, congrArg _ (takeSigned_error h), .signedInteger .signed .int⟩
    · cases hsign
      exact (hplain rfl).elim

/-- **What was taken before a refusal begins a type**: it is one, or `int` completes it. -/
theorem readType_error {ls : List Lexeme} {stop : Stop} (hread : ∀ l ∈ ls, l.Read) (h : readType ls = .error stop) :
    ∃ before, ls = before ++ stop.rest ∧
      ∃ more ∈ [[], [Lexeme.keyword .int]], ∃ type, Spells ((before ++ more).map (·.text)) type := by
  obtain ⟨qs, hqs, hq⟩ := takeVolatiles_sound ls
  unfold readType at h
  split at h
  · rename_i stop' hbase
    cases h
    obtain ⟨bs, b, hbs, hb⟩ := takeBase_error hbase
    refine ⟨qs ++ bs, ?_, [.keyword .int], by decide, ⟨b, (takeVolatiles ls).1, []⟩, ?_⟩
    · rw [List.append_assoc, ← hbs]
      exact hqs
    · have hspells := Spells.spelling hq hb Levels.none
      rw [List.append_nil] at hspells
      rw [List.append_assoc, List.map_append, List.map_append]
      exact hspells
  · rename_i base ls' hbase
    have hread' : ∀ l ∈ (takeVolatiles ls).2, l.Read := fun l hl => hread l (mem_of_mem_takeVolatiles hl)
    obtain ⟨bs, hbs, hb⟩ := takeBase_sound hread' hbase
    obtain ⟨ws, hws, hlevels⟩ := takePointers_sound ls'
    split at h
    · cases h
    · rename_i pointers rest hrest hpointers
      cases h
      rw [hpointers] at hws hlevels
      refine ⟨qs ++ bs ++ ws, ?_, [], by decide, ⟨base, (takeVolatiles ls).1, pointers⟩, ?_⟩
      · rw [List.append_assoc, List.append_assoc, ← hws, ← hbs]
        exact hqs
      · rw [List.append_nil, List.map_append, List.map_append]
        exact .spelling hq hb hlevels

/-! ## Accepted sequences -/

/-- **A sequence of lexemes is accepted** if a text that is these tokens spells a type. -/
def Accepted (ls : List Lexeme) : Prop :=
  ∃ src ts type, tokenize src = .ok ts ∧ ts.list.map (·.lexeme) = ls ∧ CType.ofSpelling src = .ok type

theorem Accepted.readType {ls : List Lexeme} (h : Accepted ls) : ∃ type, readType ls = .ok type := by
  obtain ⟨src, ts, type, htokens, rfl, hsrc⟩ := h
  obtain ⟨ts', htokens', htype⟩ := CType.ofSpelling_eq_ok.1 hsrc
  cases htokens.symm.trans htokens'
  exact ⟨type, htype⟩

theorem readType_stops {ls : List Lexeme} {stop : Stop} (hread : ∀ l ∈ ls, l.Read) (h : readType ls = .error stop) :
    ∃ before, ls = before ++ stop.rest ∧
      (∃ more ∈ [[], [Lexeme.keyword .int]], ∃ type, Spells ((before ++ more).map (·.text)) type) ∧
      ∀ rest, rest.head? = stop.rest.head? → ¬Accepted (before ++ rest) := by
  obtain ⟨before, hls, hmore⟩ := readType_error hread h
  obtain ⟨taken, hls', htakes⟩ := readType_takes h
  obtain rfl : taken = before := List.append_cancel_right (hls'.symm.trans hls)
  refine ⟨taken, hls, hmore, fun rest hhead haccepted => ?_⟩
  obtain ⟨type, hok⟩ := haccepted.readType
  rw [htakes rest hhead] at hok
  cases hok

/-! ## Cutting a text in front of a token -/

theorem Laid.blanks {column stop : Nat} {gap cs : List Char} {ts : List Token} (hgap : gap.all isBlank = true)
    (h : Laid (column + byteLength gap) cs ts stop) : Laid column (gap ++ cs) ts stop := by
  have hall : ∀ gap' : List Char, gap'.all isBlank = true → (gap ++ gap').all isBlank = true := fun gap' hgap' => by
    rw [List.all_append, hgap, hgap', Bool.and_self]
  have hcolumn : ∀ gap', column + byteLength gap + byteLength gap' = column + byteLength (gap ++ gap') := fun gap' => by
    rw [byteLength_append, Nat.add_assoc]
  cases h with
  | finish hgap' =>
    rw [hcolumn]
    exact .finish (hall _ hgap')
  | token hgap' hl hends hlaid =>
    rw [hcolumn] at hlaid ⊢
    rw [← List.append_assoc]
    exact .token (hall _ hgap') hl hends hlaid

theorem EndsLexeme.replace {l : Lexeme} {head tail cs : List Char} (h : EndsLexeme l (head ++ tail))
    (hcs : EndsWord cs) : EndsLexeme l (head ++ cs) := by
  intro hl
  cases head with
  | nil => exact hcs
  | cons c head => exact h hl

/-- **A text is cut in front of any of its tokens, or at its end**: what stands before it keeps its tokens in front of
everything that does not go on with a word. -/
theorem Laid.cut {column stop : Nat} {cs : List Char} {before after : List Token}
    (h : Laid column cs (before ++ after) stop) :
    ∃ head tail, cs = head ++ (((after.head?.map (·.lexeme.text)).getD "").toList ++ tail) ∧
      column + byteLength head = (after.head?.map (·.column)).getD stop ∧
      ∀ cs' ts' stop', EndsWord cs' → Laid (column + byteLength head) cs' ts' stop' →
        Laid column (head ++ cs') (before ++ ts') stop' := by
  induction before generalizing column cs with
  | nil =>
    cases h with
    | finish hgap => exact ⟨cs, [], (List.append_nil _).symm, rfl, fun _ _ _ _ hlaid => hlaid.blanks hgap⟩
    | token hgap hl hends hlaid => exact ⟨_, _, rfl, rfl, fun _ _ _ _ hlaid => hlaid.blanks hgap⟩
  | cons t before ih =>
    cases h with
    | @token _ _ gap cs l _ hgap hl hends hlaid =>
      obtain ⟨head, tail, rfl, hcolumn, hkeeps⟩ := ih hlaid
      have hlength : column + byteLength (gap ++ (l.text.toList ++ head)) =
          column + byteLength gap + byteLength l.text.toList + byteLength head := by
        rw [byteLength_append, byteLength_append]
        omega
      refine ⟨gap ++ (l.text.toList ++ head), tail, ?_, hlength.trans hcolumn, fun cs' ts' stop' hcs' hlaid' => ?_⟩
      · rw [List.append_assoc, List.append_assoc]
      · rw [hlength] at hlaid'
        rw [List.append_assoc, List.append_assoc]
        exact .token hgap hl (hends.replace hcs') (hkeeps cs' ts' stop' hcs' hlaid')

/-- The last tokens begin where the first of them stands, or at the end if there is none. -/
theorem Tokens.columnOfLast_eq {ts : Tokens} {before after : List Token} (h : ts.list = before ++ after) :
    ts.columnOfLast after.length = (after.head?.map (·.column)).getD ts.endColumn := by
  have hindex : ts.list[ts.list.length - after.length]? = after.head? := by
    rw [h, List.length_append, Nat.add_sub_cancel, List.getElem?_append_right (Nat.le_refl _), Nat.sub_self,
      List.head?_eq_getElem?]
  rw [Tokens.columnOfLast, hindex]
  cases after.head? <;> rfl

theorem tokenize_cut {src : String} {ts : Tokens} {before after : List Token} (h : tokenize src = .ok ts)
    (hlist : ts.list = before ++ after) :
    ∃ head tail : String, src = head ++ (after.head?.map (·.lexeme.text)).getD "" ++ tail ∧
      head.utf8ByteSize = (after.head?.map (·.column)).getD ts.endColumn ∧
      ∀ ending ts' stop, EndsWord ending.toList → Laid head.utf8ByteSize ending.toList ts' stop →
        tokenize (head ++ ending) = .ok ⟨before ++ ts', stop⟩ := by
  have hlaid := tokenize_eq_ok_iff.1 h
  rw [hlist] at hlaid
  obtain ⟨head, tail, hsrc, hcolumn, hkeeps⟩ := hlaid.cut
  have hlength : (String.ofList head).utf8ByteSize = 0 + byteLength head := by
    rw [utf8ByteSize_eq_byteLength, String.toList_ofList, Nat.zero_add]
  refine ⟨String.ofList head, String.ofList tail, ?_, hlength.trans hcolumn, fun ending ts' stop hending hlaid' => ?_⟩
  · rw [← String.ofList_toList (s := src), hsrc, String.ofList_append, String.ofList_append, String.ofList_toList,
      String.append_assoc]
  · rw [tokenize_eq_ok_iff, String.toList_append, String.toList_ofList]
    rw [hlength] at hlaid'
    exact hkeeps _ _ _ hending hlaid'

theorem exists_ending {more : List Lexeme} (h : more ∈ [[], [Lexeme.keyword .int]]) (column : Nat) :
    ∃ ending ∈ ["", " int"], ∃ ts stop, EndsWord ending.toList ∧ Laid column ending.toList ts stop ∧
      ts.map (·.lexeme) = more := by
  have hcases : more = [] ∨ more = [Lexeme.keyword .int] := by
    simpa using h
  rcases hcases with rfl | rfl
  · exact ⟨"", by decide, [], _, endsWord_nil, .finish rfl, rfl⟩
  · have hread : (Lexeme.keyword .int).Read := ⟨rfl, fun w hw => by cases hw; decide⟩
    have hlaid := @Laid.token column _ [' '] [] _ [] rfl hread (fun _ => endsWord_nil) (.finish rfl)
    exact ⟨" int", by decide, _, _, endsWord_cons (by decide) _, hlaid, rfl⟩

end Spelling

namespace CType
open Spelling

/-- **A spelling is refused at the first token that cannot stand there**, or at its end if that cannot be.  The text
before that column is a spelling, or is one with `int` after it.  The tokens before it can be extended to an accepted
sequence; followed by that token, or by the end, they cannot. -/
theorem ofSpelling_stops_at_first_fault {src spelling : String} {expected : Expected} {found : Option Lexeme}
    {column : Nat} (h : ofSpelling src = .error (.unexpected expected found column spelling)) :
    spelling = src ∧
    ∃ ts before after, tokenize src = .ok ts ∧ ts.list = before ++ after ∧
      found = after.head?.map (·.lexeme) ∧
      column = (after.head?.map (·.column)).getD ts.endColumn ∧
      SpellingError.foundText found = (after.head?.map fun t => "'" ++ t.lexeme.text ++ "'").getD "end of spelling" ∧
      (∃ head tail, src = head ++ (found.map (·.text)).getD "" ++ tail ∧ head.utf8ByteSize = column ∧
        ∃ ending ∈ ["", " int"], ∃ type, ofSpelling (head ++ ending) = .ok type) ∧
      (∃ more, Accepted (before.map (·.lexeme) ++ more)) ∧
      (∀ l, found = some l → ∀ more, ¬Accepted (before.map (·.lexeme) ++ l :: more)) ∧
      (found = none → ¬Accepted (before.map (·.lexeme))) := by
  unfold ofSpelling at h
  split at h
  · cases h
  · rename_i ts htokens
    split at h
    · cases h
    · rename_i stop hstop
      cases h
      obtain ⟨taken, hls, ⟨more, hmore, type, hspells⟩, hrefused⟩ := readType_stops (tokens_read htokens) hstop
      obtain ⟨before, after, hlist, rfl, hafter⟩ := List.map_eq_append_iff.1 hls
      have hfound : stop.rest.head? = after.head?.map (·.lexeme) := by rw [← hafter, List.head?_map]
      have hcolumn : ts.columnOfLast stop.rest.length = (after.head?.map (·.column)).getD ts.endColumn := by
        rw [← hafter, List.length_map]
        exact Tokens.columnOfLast_eq hlist
      obtain ⟨head, tail, hsrc, hhead, hkeeps⟩ := tokenize_cut htokens hlist
      obtain ⟨ending, hending, ts', stop', hends, hlaid, rfl⟩ := exists_ending hmore head.utf8ByteSize
      have htokens' := hkeeps ending ts' stop' hends hlaid
      have hok : ofSpelling (head ++ ending) = .ok type := by
        refine ofSpelling_eq_ok.2 ⟨_, htokens', (readType_eq_ok_iff htokens' type).2 ?_⟩
        rw [← List.map_append, List.map_map] at hspells
        exact hspells
      refine ⟨rfl, ts, before, after, htokens, hlist, hfound, hcolumn, ?_, ?_, ?_, fun l hl more => ?_, fun hnone => ?_⟩
      · rw [hfound]
        cases after.head? <;> rfl
      · rw [hfound, hcolumn, Option.map_map]
        exact ⟨head, tail, hsrc, hhead, ending, hending, type, hok⟩
      · exact ⟨ts'.map (·.lexeme), _, _, type, htokens', List.map_append, hok⟩
      · exact hrefused (l :: more) hl.symm
      · have hend := hrefused [] hnone.symm
        rw [List.append_nil] at hend
        exact hend

/-- A keyword that a sign keyword rules out two words later, and a tag that is missing at the end. -/
theorem ofSpelling_stops_at_first_fault_words :
    let words := "unsigned long  double*"
    let tag := "volatile\tstruct "
    ofSpelling words = .error (.unexpected .endOfSpelling (some (.keyword .double)) 15 words) ∧
    (∃ more, Accepted ([.keyword .unsigned, .keyword .long] ++ more)) ∧
    (∀ more, ¬Accepted ([.keyword .unsigned, .keyword .long] ++ .keyword .double :: more)) ∧
    ofSpelling tag = .error (.unexpected .aggregateTag none 16 tag) ∧
    (∃ more, Accepted ([.keyword .volatile, .keyword .struct] ++ more)) ∧
    ¬Accepted [.keyword .volatile, .keyword .struct] := by
  intro words tag
  have hwords : tokenize words = .ok ⟨[⟨.keyword .unsigned, 0⟩, ⟨.keyword .long, 9⟩, ⟨.keyword .double, 15⟩,
      ⟨.star, 21⟩], 22⟩ := by decide +kernel
  have htag : tokenize tag = .ok ⟨[⟨.keyword .volatile, 0⟩, ⟨.keyword .struct, 9⟩], 16⟩ := by decide +kernel
  have hdouble : ofSpelling words = .error (.unexpected .endOfSpelling (some (.keyword .double)) 15 words) := by
    decide +kernel
  have hend : ofSpelling tag = .error (.unexpected .aggregateTag none 16 tag) := by decide +kernel
  obtain ⟨-, ts, before, after, htokens, hlist, hfound, -, -, -, hmore, hrefused, -⟩ :=
    ofSpelling_stops_at_first_fault hdouble
  cases hwords.symm.trans htokens
  obtain rfl : before = [⟨.keyword .unsigned, 0⟩, ⟨.keyword .long, 9⟩] := by
    rcases before with _ | ⟨t, _ | ⟨u, _ | ⟨v, _ | ⟨w, _ | ⟨x, before⟩⟩⟩⟩⟩ <;> cases hlist
    · cases hfound
    · cases hfound
    · rfl
    · cases hfound
    · cases hfound
  obtain ⟨-, ts, before, after, htokens, hlist, hfound, -, -, -, hmore', -, hrefused'⟩ :=
    ofSpelling_stops_at_first_fault hend
  cases htag.symm.trans htokens
  have hnil : after = [] := List.head?_eq_none_iff.1 (Option.map_eq_none_iff.1 hfound.symm)
  rw [hnil, List.append_nil] at hlist
  subst hlist
  exact ⟨hdouble, hmore, hrefused _ rfl, hend, hmore', hrefused' rfl⟩

end CType
end CAbi
