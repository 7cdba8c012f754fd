import CAbi.Proofs.TemplateShape
import CAbi.SourceLine
import CAbi.Spelling.Blank
/-!
# Preprocessor — what a compiler makes of a gated header

The part of the C preprocessor that a header needs, over text: a line that begins with `#` is a directive, any other is
passed on if every open conditional is in the part that is read.  Nothing is expanded.  A directive this reader does not
know is an error, and so is an `#else` or `#endif` without its conditional or a conditional that the text leaves open.

A line is read without regard to how it was written (`readLine`); that the lines of `SourceLine` are read back as what
they are is `readLine_text`.
-/
namespace CAbi
namespace Preprocessor

/-! ## Reading a line -/

/-- **A piece of a line**: a word, or any other character that is not a blank. -/
inductive Piece where
  | word (text : String)
  | mark (c : Char)
  deriving DecidableEq, Repr

def endWord : List Char → List Piece
  | [] => []
  | c :: cs => [.word (String.ofList (c :: cs))]

/-- The pieces of a line in the middle of a word, of which the characters in `word` are read. -/
def piecesFrom (word : List Char) : List Char → List Piece
  | [] => endWord word
  | c :: cs =>
    if Identifier.isRest c then piecesFrom (word ++ [c]) cs
    else if Spelling.isBlank c then endWord word ++ piecesFrom [] cs
    else endWord word ++ .mark c :: piecesFrom [] cs

/-- **The pieces of a line.** -/
def pieces (line : List Char) : List Piece := piecesFrom [] line

/-- Any number of `&& !defined(G)`. -/
def readGuards : List Piece → Option (List String)
  | [] => some []
  | .mark '&' :: .mark '&' :: .mark '!' :: .word "defined" :: .mark '(' :: .word g :: .mark ')' :: ps =>
    (readGuards ps).map (g :: ·)
  | _ => none

/-- **The directive after a `#`.**  The value of a macro is of no interest where nothing is expanded. -/
def readDirective : List Piece → Option SourceLine
  | .word "define" :: .word m :: _ => some (.define m)
  | [.word "undef", .word m] => some (.undefine m)
  | [.word "ifdef", .word m] => some (.ifDefined m)
  | [.word "ifndef", .word m] => some (.ifUndefined m)
  | [.word "else"] => some .otherwise
  | [.word "endif"] => some .endIf
  | .word "if" :: .word "defined" :: .mark '(' :: .word m :: .mark ')' :: ps => (readGuards ps).map (.ifNeeded m)
  | _ => none

/-- **A line as the preprocessor sees it**; none if it is a directive that is not known. -/
def readLine (line : List Char) : Option SourceLine :=
  match pieces line with
  | [] => some .blank
  | .mark '#' :: ps => readDirective ps
  | _ => some (.code (String.ofList line))

/-! ## Acting on it -/

/-- **An open conditional**: whether its current part is read, and whether that part is the one after `#else`. -/
structure Branch where
  taken : Bool
  isElse : Bool
  deriving DecidableEq, Repr

/-- **The preprocessor between two lines**: the macros defined, the conditionals open, innermost first, and the lines
passed on. -/
structure State where
  macros : List String
  branches : List Branch := []
  output : List String := []
  deriving DecidableEq, Repr

namespace State

def live (s : State) : Bool := s.branches.all (·.taken) -- every open conditional is in the part that is read

def isDefined (s : State) (m : String) : Bool := s.macros.contains m

def enter (s : State) (b : Branch) : State := { s with branches := b :: s.branches }

end State

/-- **One line.** -/
def step (s : State) : SourceLine → Option State
  | .define m => some (if s.live then { s with macros := m :: s.macros } else s)
  | .defineAs m _ => some (if s.live then { s with macros := m :: s.macros } else s)
  | .undefine m => some (if s.live then { s with macros := s.macros.filter (· != m) } else s)
  | .ifNeeded m guards => some (s.enter ⟨s.isDefined m && !guards.any s.isDefined, false⟩)
  | .ifDefined m => some (s.enter ⟨s.isDefined m, false⟩)
  | .ifUndefined m => some (s.enter ⟨!s.isDefined m, false⟩)
  | .otherwise =>
    match s.branches with
    | ⟨taken, false⟩ :: bs => some { s with branches := ⟨!taken, true⟩ :: bs }
    | _ => none
  | .endIf =>
    match s.branches with
    | _ :: bs => some { s with branches := bs }
    | [] => none
  | .code text => some (if s.live then { s with output := s.output ++ [text] } else s)
  | .blank => some s

def runLines (ls : List SourceLine) (s : State) : Option State := ls.foldlM step s

/-- **A text, line by line.**  Its conditionals have to be closed in it. -/
def includeText (text : String) (s : State) : Option State := do
  let s' ← (text.toList.splitOn '\n').foldlM (fun s line => (readLine line).bind (step s)) s
  if s'.branches = s.branches then some s' else none

/-! ## Lines read back -/

theorem piecesFrom_append {w : List Char} (hw : ∀ c ∈ w, Identifier.isRest c = true) (word cs : List Char) :
    piecesFrom word (w ++ cs) = piecesFrom (word ++ w) cs := by
  induction w generalizing word with
  | nil => rw [List.nil_append, List.append_nil]
  | cons c w ih =>
    rw [List.forall_mem_cons] at hw
    rw [List.cons_append, piecesFrom, if_pos hw.1, ih hw.2, List.append_assoc, List.singleton_append]

theorem endWord_of_valid {w : String} (hw : Identifier.valid w.toList = true) : endWord w.toList = [.word w] := by
  cases h : w.toList with
  | nil => rw [h] at hw; cases hw
  | cons c cs => rw [endWord, ← h, String.ofList_toList]

theorem pieces_word {w : String} (hw : Identifier.valid w.toList = true) : pieces w.toList = [.word w] := by
  have happ := piecesFrom_append (Identifier.all_isRest_of_valid hw) [] []
  rw [List.append_nil, List.nil_append] at happ
  rw [pieces, happ, piecesFrom, endWord_of_valid hw]

/-- A word ends where a character follows that is none of its own. -/
theorem pieces_word_cons {w : String} (hw : Identifier.valid w.toList = true) {c : Char}
    (hc : Identifier.isRest c = false) (cs : List Char) :
    pieces (w.toList ++ c :: cs) = .word w :: pieces (c :: cs) := by
  rw [pieces, piecesFrom_append (Identifier.all_isRest_of_valid hw), List.nil_append]
  simp only [pieces, piecesFrom, hc, endWord_of_valid hw, Bool.false_eq_true, if_false]
  split <;> rfl

theorem pieces_blank_cons {c : Char} (hc : Identifier.isRest c = false) (hb : Spelling.isBlank c = true)
    (cs : List Char) : pieces (c :: cs) = pieces cs := by
  simp only [pieces, piecesFrom, hc, hb, endWord, Bool.false_eq_true, if_false, if_true, List.nil_append]

theorem pieces_mark_cons {c : Char} (hc : Identifier.isRest c = false) (hb : Spelling.isBlank c = false)
    (cs : List Char) : pieces (c :: cs) = .mark c :: pieces cs := by
  simp only [pieces, piecesFrom, hc, hb, endWord, Bool.false_eq_true, if_false, List.nil_append]

theorem pieces_naming {word m : String} (hword : Identifier.valid word.toList = true)
    (hm : Identifier.valid m.toList = true) :
    pieces ('#' :: (word.toList ++ ' ' :: m.toList)) = [.mark '#', .word word, .word m] := by
  rw [pieces_mark_cons (by decide) (by decide), pieces_word_cons hword (by decide),
    pieces_blank_cons (by decide) (by decide), pieces_word hm]

theorem pieces_defined_cons {m : String} (hm : Identifier.valid m.toList = true) (cs : List Char) :
    pieces ("defined".toList ++ '(' :: (m.toList ++ ')' :: cs)) =
      .word "defined" :: .mark '(' :: .word m :: .mark ')' :: pieces cs := by
  rw [pieces_word_cons (by decide) (by decide), pieces_mark_cons (by decide) (by decide),
    pieces_word_cons hm (by decide), pieces_mark_cons (by decide) (by decide)]

theorem readGuards_pieces : ∀ {guards : List String}, (∀ g ∈ guards, Identifier.valid g.toList = true) →
    readGuards (pieces (String.join (guards.map fun g => " && !defined(" ++ g ++ ")")).toList) = some guards
  | [], _ => by rfl
  | g :: guards, h => by
    rw [List.forall_mem_cons] at h
    have hchars : (String.join ((g :: guards).map fun g => " && !defined(" ++ g ++ ")")).toList =
        ' ' :: '&' :: '&' :: ' ' :: '!' :: ("defined".toList ++ '(' :: (g.toList ++ ')' ::
          (String.join (guards.map fun g => " && !defined(" ++ g ++ ")")).toList)) := by
      simp
    rw [hchars, pieces_blank_cons (by decide) (by decide), pieces_mark_cons (by decide) (by decide),
      pieces_mark_cons (by decide) (by decide), pieces_blank_cons (by decide) (by decide),
      pieces_mark_cons (by decide) (by decide), pieces_defined_cons h.1, readGuards, readGuards_pieces h.2]
    rfl

/-- **A line that is read back**: its macros are identifiers, its code begins with a word, and it is one line. -/
def Readable : SourceLine → Prop
  | .define m | .undefine m | .ifDefined m | .ifUndefined m => Identifier.valid m.toList = true
  | .defineAs m value => Identifier.valid m.toList = true ∧ '\n' ∉ value.toList
  | .ifNeeded m guards => Identifier.valid m.toList = true ∧ ∀ g ∈ guards, Identifier.valid g.toList = true
  | .code text => '\n' ∉ text.toList ∧ ∃ w cs, text.toList = w ++ ' ' :: cs ∧ Identifier.valid w = true
  | .otherwise | .endIf | .blank => True

/-- What is left of a line when it is read: the value of a macro is not. -/
def seen : SourceLine → SourceLine
  | .defineAs m _ => .define m
  | l => l

theorem step_seen (s : State) : ∀ l : SourceLine, step s (seen l) = step s l
  | .defineAs .. | .define .. | .undefine .. | .ifNeeded .. | .ifDefined .. | .ifUndefined .. => rfl
  | .otherwise | .endIf | .code .. | .blank => rfl

/-- **A readable line is read as what it is.** -/
theorem readLine_text : ∀ {l : SourceLine}, Readable l → readLine l.text.toList = some (seen l)
  | .define m, hm => by
    have hchars : ("#define " ++ m).toList = '#' :: ("define".toList ++ ' ' :: m.toList) := by simp
    rw [SourceLine.text, hchars, readLine, pieces_naming (by decide) hm]
    rfl
  | .defineAs m value, hm => by
    have hchars : ("#define " ++ m ++ " " ++ value).toList =
        '#' :: ("define".toList ++ ' ' :: (m.toList ++ ' ' :: value.toList)) := by simp
    rw [SourceLine.text, hchars, readLine, pieces_mark_cons (by decide) (by decide),
      pieces_word_cons (by decide) (by decide), pieces_blank_cons (by decide) (by decide),
      pieces_word_cons hm.1 (by decide)]
    rfl
  | .undefine m, hm => by
    have hchars : ("#undef " ++ m).toList = '#' :: ("undef".toList ++ ' ' :: m.toList) := by simp
    rw [SourceLine.text, hchars, readLine, pieces_naming (by decide) hm]
    rfl
  | .ifDefined m, hm => by
    have hchars : ("#ifdef " ++ m).toList = '#' :: ("ifdef".toList ++ ' ' :: m.toList) := by simp
    rw [SourceLine.text, hchars, readLine, pieces_naming (by decide) hm]
    rfl
  | .ifUndefined m, hm => by
    have hchars : ("#ifndef " ++ m).toList = '#' :: ("ifndef".toList ++ ' ' :: m.toList) := by simp
    rw [SourceLine.text, hchars, readLine, pieces_naming (by decide) hm]
    rfl
  | .ifNeeded m guards, h => by
    have hchars : (SourceLine.ifNeeded m guards).text.toList =
        '#' :: ("if".toList ++ ' ' :: ("defined".toList ++ '(' :: (m.toList ++ ')' ::
          (String.join (guards.map fun g => " && !defined(" ++ g ++ ")")).toList))) := by
      simp [SourceLine.text]
    rw [hchars, readLine, pieces_mark_cons (by decide) (by decide), pieces_word_cons (by decide) (by decide),
      pieces_blank_cons (by decide) (by decide), pieces_defined_cons h.1]
    show (readGuards _).map _ = _
    rw [readGuards_pieces h.2]
    rfl
  | .otherwise, _ => by rfl
  | .endIf, _ => by rfl
  | .blank, _ => by rfl
  | .code text, h => by
    obtain ⟨w, cs, hsplit, hw⟩ := h.2
    have hpieces := pieces_word_cons (w := String.ofList w) (by rwa [String.toList_ofList])
      (by decide : Identifier.isRest ' ' = false) cs
    rw [String.toList_ofList] at hpieces
    rw [SourceLine.text, readLine, hsplit, hpieces, ← hsplit, String.ofList_toList]
    rfl

theorem newline_not_mem_text : ∀ {l : SourceLine}, Readable l → '\n' ∉ l.text.toList
  | .define m, hm | .undefine m, hm | .ifDefined m, hm | .ifUndefined m, hm => by
    simp [SourceLine.text, Identifier.not_mem_of_valid hm (by decide : Identifier.isRest '\n' = false)]
  | .defineAs m value, hm => by
    simp [SourceLine.text, Identifier.not_mem_of_valid hm.1 (by decide : Identifier.isRest '\n' = false), hm.2]
  | .ifNeeded m guards, h => by
    have hg : ∀ g ∈ guards, '\n' ∉ g.toList := fun g hg => Identifier.not_mem_of_valid (h.2 g hg) (by decide)
    simpa [SourceLine.text, Identifier.not_mem_of_valid h.1 (by decide : Identifier.isRest '\n' = false)] using hg
  | .otherwise, _ | .endIf, _ | .blank, _ => by decide
  | .code _, h => h.1

theorem splitOn_textOfLines : ∀ {ls : List SourceLine}, (∀ l ∈ ls, Readable l) →
    (SourceLine.textOfLines ls).toList.splitOn '\n' = ls.map (·.text.toList) ++ [[]]
  | [], _ => List.splitOn_nil '\n'
  | l :: ls, h => by
    rw [List.forall_mem_cons] at h
    have hchars : (SourceLine.textOfLines (l :: ls)).toList =
        l.text.toList ++ '\n' :: (SourceLine.textOfLines ls).toList := by
      simp [SourceLine.textOfLines]
    rw [hchars, List.splitOn_append_cons_self_of_not_mem (newline_not_mem_text h.1), splitOn_textOfLines h.2]
    rfl

theorem foldlM_readLine : ∀ {ls : List SourceLine}, (∀ l ∈ ls, Readable l) → ∀ s : State,
    (ls.map (·.text.toList)).foldlM (fun s line => (readLine line).bind (step s)) s = runLines ls s
  | [], _, _ => rfl
  | l :: ls, h, s => by
    rw [List.forall_mem_cons] at h
    rw [List.map_cons, List.foldlM_cons, readLine_text h.1, Option.bind_some, step_seen, runLines, List.foldlM_cons]
    exact congrArg _ (funext fun s' => foldlM_readLine h.2 s')

/-- **The text of readable lines does what the lines do.** -/
theorem includeText_textOfLines {ls : List SourceLine} (h : ∀ l ∈ ls, Readable l) (s : State) :
    includeText (SourceLine.textOfLines ls) s =
      (runLines ls s).bind fun s' => if s'.branches = s.branches then some s' else none := by
  rw [includeText, splitOn_textOfLines h, List.foldlM_append, foldlM_readLine h]
  -- The text ends in a newline, after which there is an empty line.
  cases runLines ls s <;> rfl

end Preprocessor
end CAbi
