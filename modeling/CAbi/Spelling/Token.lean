import CAbi.Identifier
import CAbi.Spelling.Blank
/-!
# Token — the words and stars of a type spelling

A spelling is read left to right by a `Cursor`, which holds the characters still to come and the column they start at.
Columns count UTF-8 bytes from zero, since that is what an editor is given.  The cursor always stands between two
characters: a call that meets a character no token can start with reports it and stays in front of it, so that asking
again gives the same answer, and so does asking again at the end.

The words the grammar knows are told apart here, once; everything after this module matches on constructors.
-/
namespace CAbi
namespace Spelling

/-- **The words with a meaning of their own.** -/
inductive Keyword where
  | volatile
  | unsigned
  | signed
  | char
  | short
  | int
  | long
  | float
  | double
  | void
  | struct
  | union
  | addr
  | int64
  | reg
  deriving DecidableEq, Repr

namespace Keyword

def all : List Keyword :=
  [.volatile, .unsigned, .signed, .char, .short, .int, .long, .float, .double, .void, .struct, .union,
   .addr, .int64, .reg]

def text : Keyword → String
  | .volatile => "volatile"
  | .unsigned => "unsigned"
  | .signed => "signed"
  | .char => "char"
  | .short => "short"
  | .int => "int"
  | .long => "long"
  | .float => "float"
  | .double => "double"
  | .void => "void"
  | .struct => "struct"
  | .union => "union"
  | .addr => "_Addr"
  | .int64 => "_Int64"
  | .reg => "_Reg"

def ofText? (s : String) : Option Keyword := all.find? fun k => k.text == s

end Keyword

inductive Lexeme where
  | keyword (k : Keyword)
  | name (text : String)
  | star
  deriving DecidableEq, Repr

namespace Lexeme

/-- **A word's lexeme**: its keyword if it is one, else a name. -/
def ofWord (word : String) : Lexeme :=
  match Keyword.ofText? word with
  | some k => .keyword k
  | none => .name word

def text : Lexeme → String
  | .keyword k => k.text
  | .name s => s
  | .star => "*"

def word? : Lexeme → Option String
  | .star => none
  | l => some l.text

end Lexeme

structure Token where
  lexeme : Lexeme
  column : Nat
  deriving DecidableEq, Repr

/-- The number of bytes the characters take in UTF-8. -/
def byteLength (cs : List Char) : Nat := cs.foldr (fun c n => c.utf8Size + n) 0

/-- **A place in a spelling**: the column and the characters from there on. -/
structure Cursor where
  column : Nat
  rest : List Char

inductive Reading where
  | token (t : Token)
  | finish (column : Nat)
  | badChar (ch : Char) (column : Nat)

namespace Cursor

def start (src : String) : Cursor := ⟨0, src.toList⟩

def skipBlanks (c : Cursor) : Cursor :=
  ⟨c.column + byteLength (c.rest.takeWhile isBlank), c.rest.dropWhile isBlank⟩

/-- **One step**, from a place that is not a blank. -/
def readAt (column : Nat) : List Char → Reading × Cursor
  | [] => (.finish column, ⟨column, []⟩)
  | ch :: cs =>
    if ch = '*' then
      (.token ⟨.star, column⟩, ⟨column + 1, cs⟩)
    else if Identifier.isStart ch then
      let tail := cs.takeWhile Identifier.isRest
      (.token ⟨.ofWord (String.ofList (ch :: tail)), column⟩,
        ⟨column + 1 + tail.length, cs.dropWhile Identifier.isRest⟩)
    else
      (.badChar ch column, ⟨column, ch :: cs⟩)

/-- **One step**: blanks, then a token, the end, or a character that starts no token. -/
def read (c : Cursor) : Reading × Cursor := readAt c.skipBlanks.column c.skipBlanks.rest

def readMany : Nat → Cursor → List Reading
  | 0, _ => []
  | n + 1, c => c.read.1 :: readMany n c.read.2

theorem readAt_token_length {column : Nat} {cs : List Char} {t : Token} {d : Cursor}
    (h : readAt column cs = (.token t, d)) : d.rest.length < cs.length := by
  cases cs with
  | nil => simp [readAt] at h
  | cons ch cs =>
    simp only [readAt] at h
    split at h
    · simp only [Prod.mk.injEq] at h
      obtain ⟨_, rfl⟩ := h
      simp
    · split at h
      · simp only [Prod.mk.injEq] at h
        obtain ⟨_, rfl⟩ := h
        have := (List.dropWhile_sublist (p := Identifier.isRest) (l := cs)).length_le
        simp only [List.length_cons]
        omega
      · simp at h

theorem read_token_length {c : Cursor} {t : Token} {d : Cursor} (h : c.read = (.token t, d)) :
    d.rest.length < c.rest.length := by
  have h1 := readAt_token_length h
  have h2 := (List.dropWhile_sublist (p := isBlank) (l := c.rest)).length_le
  simp only [skipBlanks] at h1
  omega

end Cursor

/-- **A spelling in tokens**, with the column its text ends at. -/
structure Tokens where
  list : List Token
  endColumn : Nat
  deriving DecidableEq, Repr

/-- A character that starts no token, and where it stands. -/
structure BadChar where
  ch : Char
  column : Nat
  deriving DecidableEq, Repr

/-- **Every token from the cursor to the end**, or the first character that starts none. -/
def Cursor.tokens (c : Cursor) : Except BadChar Tokens :=
  match _h : c.read with
  | (.token t, d) =>
    match d.tokens with
    | .ok ts => .ok { ts with list := t :: ts.list }
    | .error e => .error e
  | (.finish column, _) => .ok ⟨[], column⟩
  | (.badChar ch column, _) => .error ⟨ch, column⟩
termination_by c.rest.length
decreasing_by exact Cursor.read_token_length _h

def tokenize (src : String) : Except BadChar Tokens := (Cursor.start src).tokens

/-- The column at which the last `n` tokens begin. -/
def Tokens.columnOfLast (ts : Tokens) (n : Nat) : Nat :=
  match ts.list[ts.list.length - n]? with
  | some t => t.column
  | none => ts.endColumn

end Spelling
end CAbi
