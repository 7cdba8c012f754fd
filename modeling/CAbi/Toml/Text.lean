import CAbi.Toml.Lexical
/-!
# Toml.Text — quoted text

Four forms: basic text in double quotes, with escapes; literal text in single quotes, without; and both over several
lines, in three quotes of the kind.  In the long forms a line feed right after the opening quotes is dropped, every
line end reads as one line feed, and up to two quotes may stand directly before the closing three.

Each reader starts after the opening quotes and gives the text and what follows the closing ones.
-/
namespace CAbi
namespace Toml

def hexDigit? (c : Char) : Option Nat :=
  if c.isDigit then some (c.toNat - '0'.toNat)
  else if 'a' ≤ c && c ≤ 'f' then some (c.toNat - 'a'.toNat + 10)
  else if 'A' ≤ c && c ≤ 'F' then some (c.toNat - 'A'.toNat + 10)
  else none

def hexNumber? : Nat → Nat → List Char → Option (Nat × List Char)
  | 0, acc, cs => some (acc, cs)
  | n + 1, acc, c :: cs => (hexDigit? c).bind fun d => hexNumber? n (acc * 16 + d) cs
  | _ + 1, _, [] => none

/-- The character of a code point; surrogates and numbers beyond the last one have none. -/
def charOfCode? (n : Nat) : Option Char :=
  if h : n.isValidChar then some (Char.ofNatAux n h) else none

def hexEscape? (n : Nat) (cs : List Char) : Option (Char × List Char) :=
  (hexNumber? n 0 cs).bind fun (code, rest) => (charOfCode? code).map fun c => (c, rest)

/-- **An escape**, after its backslash. -/
def escape? : List Char → Option (Char × List Char)
  | 'b' :: cs => some (Char.ofNat 0x08, cs)
  | 't' :: cs => some ('\t', cs)
  | 'n' :: cs => some ('\n', cs)
  | 'f' :: cs => some (Char.ofNat 0x0c, cs)
  | 'r' :: cs => some ('\r', cs)
  | '"' :: cs => some ('"', cs)
  | '\\' :: cs => some ('\\', cs)
  | 'u' :: cs => hexEscape? 4 cs
  | 'U' :: cs => hexEscape? 8 cs
  | _ => none

/-- **A line broken by a backslash**, after the backslash: blanks, a line end, and all blanks and line ends that
follow. -/
def continuation? (cs : List Char) : Option (List Char) :=
  (newline? (skipBlanks cs)).map skipBlankLines

theorem hexNumber?_length {n acc : Nat} {cs rest : List Char} {v : Nat} (h : hexNumber? n acc cs = some (v, rest)) :
    rest.length ≤ cs.length := by
  induction n generalizing acc cs with
  | zero =>
    simp only [hexNumber?, Option.some.injEq, Prod.mk.injEq] at h
    exact Nat.le_of_eq (by rw [h.2])
  | succ n ih =>
    cases cs with
    | nil => simp [hexNumber?] at h
    | cons c cs =>
      simp only [hexNumber?] at h
      obtain ⟨d, _, hd⟩ := Option.bind_eq_some_iff.1 h
      exact Nat.le_succ_of_le (ih hd)

theorem hexEscape?_length {n : Nat} {cs rest : List Char} {c : Char} (h : hexEscape? n cs = some (c, rest)) :
    rest.length ≤ cs.length := by
  unfold hexEscape? at h
  obtain ⟨⟨v, r⟩, hv, hc⟩ := Option.bind_eq_some_iff.1 h
  obtain ⟨_, _, he⟩ := Option.map_eq_some_iff.1 hc
  simp only [Prod.mk.injEq] at he
  rw [← he.2]
  exact hexNumber?_length hv

theorem escape?_length {cs rest : List Char} {c : Char} (h : escape? cs = some (c, rest)) :
    rest.length < cs.length := by
  unfold escape? at h
  split at h
  case h_8 => exact Nat.lt_succ_of_le (hexEscape?_length h)
  case h_9 => exact Nat.lt_succ_of_le (hexEscape?_length h)
  case h_10 => cases h
  all_goals
    simp only [Option.some.injEq, Prod.mk.injEq] at h
    rw [← h.2]
    simp

theorem continuation?_length {cs rest : List Char} (h : continuation? cs = some rest) : rest.length < cs.length := by
  unfold continuation? at h
  obtain ⟨r, hr, rfl⟩ := Option.map_eq_some_iff.1 h
  have h1 := newline?_length hr
  have h2 : (skipBlanks cs).length ≤ cs.length := (List.dropWhile_sublist _).length_le
  have h3 := skipBlankLines_length r
  omega

def basicText (cs : List Char) : Option (List Char × List Char) :=
  match cs with
  | [] => none
  | '"' :: rest => some ([], rest)
  | '\\' :: rest =>
    match _h : escape? rest with
    | some (c, rest') => (basicText rest').map fun (text, r) => (c :: text, r)
    | none => none
  | c :: rest => if isPrintable c then (basicText rest).map fun (text, r) => (c :: text, r) else none
termination_by cs.length
decreasing_by
  · have := escape?_length _h
    simp only [List.length_cons]
    omega
  · simp

def basicLines (cs : List Char) : Option (List Char × List Char) :=
  match cs with
  | [] => none
  | '"' :: '"' :: '"' :: '"' :: '"' :: rest => some (['"', '"'], rest)
  | '"' :: '"' :: '"' :: '"' :: rest => some (['"'], rest)
  | '"' :: '"' :: '"' :: rest => some ([], rest)
  | '\n' :: rest => (basicLines rest).map fun (text, r) => ('\n' :: text, r)
  | '\r' :: '\n' :: rest => (basicLines rest).map fun (text, r) => ('\n' :: text, r)
  | '\\' :: rest =>
    match _h : continuation? rest with
    | some rest' => basicLines rest'
    | none =>
      match _h' : escape? rest with
      | some (c, rest') => (basicLines rest').map fun (text, r) => (c :: text, r)
      | none => none
  | c :: rest => if isPrintable c then (basicLines rest).map fun (text, r) => (c :: text, r) else none
termination_by cs.length
decreasing_by
  · simp
  · simp only [List.length_cons]
    omega
  · have := continuation?_length _h
    simp only [List.length_cons]
    omega
  · have := escape?_length _h'
    simp only [List.length_cons]
    omega
  · simp

def literalText : List Char → Option (List Char × List Char)
  | [] => none
  | '\'' :: rest => some ([], rest)
  | c :: rest => if isPrintable c then (literalText rest).map fun (text, r) => (c :: text, r) else none

def literalLines : List Char → Option (List Char × List Char)
  | [] => none
  | '\'' :: '\'' :: '\'' :: '\'' :: '\'' :: rest => some (['\'', '\''], rest)
  | '\'' :: '\'' :: '\'' :: '\'' :: rest => some (['\''], rest)
  | '\'' :: '\'' :: '\'' :: rest => some ([], rest)
  | '\n' :: rest => (literalLines rest).map fun (text, r) => ('\n' :: text, r)
  | '\r' :: '\n' :: rest => (literalLines rest).map fun (text, r) => ('\n' :: text, r)
  | c :: rest => if isPrintable c then (literalLines rest).map fun (text, r) => (c :: text, r) else none

/-- The long forms drop a line end right after their opening quotes. -/
def dropFirstNewline (cs : List Char) : List Char := (newline? cs).getD cs

/-- **Text in any of the four forms**, from its opening quotes on. -/
def quotedText? : List Char → Option (List Char × List Char)
  | '"' :: '"' :: '"' :: cs => basicLines (dropFirstNewline cs)
  | '"' :: cs => basicText cs
  | '\'' :: '\'' :: '\'' :: cs => literalLines (dropFirstNewline cs)
  | '\'' :: cs => literalText cs
  | _ => none

end Toml
end CAbi
