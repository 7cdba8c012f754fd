/-!
# Toml.Lexical — blanks, comments and the ends of lines

The text is a list of characters, and every reader hands back what it did not read.  Blanks are space and tab.  A line
ends in a line feed, with or without a carriage return before it; a carriage return that stands alone ends nothing and
is allowed nowhere.  A comment runs to the end of its line and holds no control character but the tab.
-/
namespace CAbi
namespace Toml

def isBlank (c : Char) : Bool := c == ' ' || c == '\t'

/-- Tab, printable ASCII, or anything beyond ASCII. -/
def isPrintable (c : Char) : Bool := c == '\t' || (0x20 ≤ c.toNat && c.toNat != 0x7f)

def skipBlanks (cs : List Char) : List Char := cs.dropWhile isBlank

def newline? : List Char → Option (List Char)
  | '\n' :: cs => some cs
  | '\r' :: '\n' :: cs => some cs
  | _ => none

def skipComment : List Char → List Char
  | '#' :: cs => cs.dropWhile isPrintable
  | cs => cs

/-- **What may follow the content of a line**: blanks, a comment, and then its end or the end of the text. -/
def lineEnd? (cs : List Char) : Option (List Char) :=
  match skipComment (skipBlanks cs) with
  | [] => some []
  | rest => newline? rest

/-- **Blanks, line ends and comments**, as they may stand between the elements of an array. -/
def skipFiller (inComment : Bool) : List Char → List Char
  | [] => []
  | '\n' :: cs => skipFiller false cs
  | '\r' :: '\n' :: cs => skipFiller false cs
  | c :: cs =>
    if inComment then (if isPrintable c then skipFiller true cs else c :: cs)
    else if isBlank c then skipFiller false cs
    else if c == '#' then skipFiller true cs
    else c :: cs

def skipBlankLines : List Char → List Char
  | ' ' :: cs => skipBlankLines cs
  | '\t' :: cs => skipBlankLines cs
  | '\n' :: cs => skipBlankLines cs
  | '\r' :: '\n' :: cs => skipBlankLines cs
  | cs => cs

theorem newline?_length {cs rest : List Char} (h : newline? cs = some rest) : rest.length < cs.length := by
  unfold newline? at h
  split at h
  · simp only [Option.some.injEq] at h
    subst h
    simp
  · simp only [Option.some.injEq] at h
    subst h
    simp only [List.length_cons]
    omega
  · cases h

theorem skipBlankLines_length (cs : List Char) : (skipBlankLines cs).length ≤ cs.length := by
  fun_induction skipBlankLines cs <;> simp_all <;> omega

end Toml
end CAbi
