import CAbi.Toml.DateTime
import CAbi.Toml.Number
import CAbi.Toml.Value
/-!
# Toml.Document — a text as a tree

Reading has two halves.  The text is read into statements, one for each line that says something: a header, a repeated
header, or an assignment.  The statements are then carried out one after the other on the tree
(`Document.ofStatements?`). Each half can refuse the text, and for one that is refused there is no tree.

Loops over the text are bounded by its length, since every round reads a character, and values nest at most seventy-nine
deep, as do the parts of a dotted key.
-/
namespace CAbi
namespace Toml

/-- Values do not nest this deep, and keys do not have this many parts. -/
def depthLimit : Nat := 80

/-! ## Keys -/

def isBareKey (c : Char) : Bool := c.isAlphanum || c == '-' || c == '_'

def keyPart? : List Char → Option (String × List Char)
  | '"' :: cs => (basicText cs).map fun (s, r) => (String.ofList s, r)
  | '\'' :: cs => (literalText cs).map fun (s, r) => (String.ofList s, r)
  | cs =>
    let word := cs.takeWhile isBareKey
    if word.isEmpty then none else some (String.ofList word, cs.dropWhile isBareKey)

def keyParts? : Nat → List Char → Option (List String × List Char)
  | 0, _ => none
  | fuel + 1, cs => do
    let (part, rest) ← keyPart? (skipBlanks cs)
    match skipBlanks rest with
    | '.' :: rest => (keyParts? fuel rest).map fun (parts, r) => (part :: parts, r)
    | rest => some ([part], rest)

structure Key where
  path : List String
  last : String

def key? (cs : List Char) : Option (Key × List Char) := do
  let (parts, rest) ← keyParts? (depthLimit - 1) cs
  let last ← parts.getLast?
  some (⟨parts.dropLast, last⟩, rest)

/-! ## Values

`element` is the reader of the values inside, one level deeper. -/

section

variable (element : List Char → Option (Value × List Char))

def elements? : Nat → List Char → Option (List Value × List Char)
  | 0, _ => none
  | fuel + 1, cs =>
    match skipFiller false cs with
    -- the array is empty, or a comma stands before its bracket
    | ']' :: rest => some ([], rest)
    | cs => do
      let (v, rest) ← element cs
      match skipFiller false rest with
      | ',' :: rest => (elements? fuel rest).map fun (vs, r) => (v :: vs, r)
      | ']' :: rest => some ([v], rest)
      | _ => none

def keyValue? (cs : List Char) : Option (Key × Value × List Char) := do
  let (key, rest) ← key? cs
  let rest ← expect? '=' rest
  let (v, rest) ← element (skipBlanks rest)
  some (key, v, rest)

def inlinePairs? : Nat → Entries → List Char → Option (Entries × List Char)
  | 0, _, _ => none
  | fuel + 1, es, cs => do
    let (key, v, rest) ← keyValue? element cs
    let es ← es.assignInline key.path key.last v
    match skipBlanks rest with
    -- unlike in an array, another pair has to follow
    | ',' :: rest => inlinePairs? fuel es rest
    | '\x7d' :: rest => some (es, rest)
    | _ => none

def inlineTable? (fuel : Nat) (cs : List Char) : Option (Entries × List Char) :=
  match skipBlanks cs with
  | '\x7d' :: rest => some ([], rest)
  | cs => inlinePairs? element fuel [] cs

end

def numeral? (cs : List Char) : Option (Value × List Char) :=
  if startsDate cs || startsTime cs then (dateTime? cs).map fun r => (.dateTime, r)
  else
    (number? cs).map fun
      | (.integer n, r) => (.integer n, r)
      | (.float, r) => (.float, r)

/-- **A value**, inside at most `depth` others.  `fuel` bounds the loops. -/
def value? (fuel : Nat) : Nat → List Char → Option (Value × List Char)
  | _, '"' :: cs => (quotedText? ('"' :: cs)).map fun (s, r) => (.text (String.ofList s), r)
  | _, '\'' :: cs => (quotedText? ('\'' :: cs)).map fun (s, r) => (.text (String.ofList s), r)
  | 0, '[' :: _ => none
  | depth + 1, '[' :: cs => (elements? (value? fuel depth) fuel cs).map fun (vs, r) => (.array vs, r)
  | 0, '\x7b' :: _ => none
  | depth + 1, '\x7b' :: cs => (inlineTable? (value? fuel depth) fuel cs).map fun (es, r) => (.table .inline es, r)
  | _, 't' :: 'r' :: 'u' :: 'e' :: cs => some (.boolean true, cs)
  | _, 'f' :: 'a' :: 'l' :: 's' :: 'e' :: cs => some (.boolean false, cs)
  | _, cs => numeral? cs

/-! ## Statements -/

inductive Statement where
  | header (key : Key)
  | repeated (key : Key)
  | assign (key : Key) (v : Value)

def statement? (fuel : Nat) : List Char → Option (Statement × List Char)
  | '[' :: '[' :: cs => do
    let (key, rest) ← key? cs
    let rest ← expect? ']' rest
    let rest ← expect? ']' rest
    some (.repeated key, ← lineEnd? rest)
  | '[' :: cs => do
    let (key, rest) ← key? cs
    let rest ← expect? ']' rest
    some (.header key, ← lineEnd? rest)
  | cs => do
    let (key, v, rest) ← keyValue? (value? fuel (depthLimit - 1)) cs
    some (.assign key v, ← lineEnd? rest)

/-- **The statements of a text**, line by line; a line may be blank or hold a comment alone. -/
def statements? (size : Nat) : Nat → List Char → Option (List Statement)
  | 0, _ => none
  | fuel + 1, cs =>
    match skipBlanks cs with
    | [] => some []
    | cs =>
      match lineEnd? cs with
      | some rest => statements? size fuel rest
      | none => do
        let (s, rest) ← statement? size cs
        (statements? size fuel rest).map fun ss => s :: ss

/-! ## Documents -/

/-- The tree so far, and the path of the section that assignments go to. -/
structure Document where
  root : Entries := []
  place : List String := []

namespace Document

def step? (d : Document) : Statement → Option Document
  | .header key => (d.root.openSection key.path key.last).map fun root => ⟨root, key.path ++ [key.last]⟩
  | .repeated key => (d.root.repeatSection key.path key.last).map fun root => ⟨root, key.path ++ [key.last]⟩
  | .assign key v => (d.root.assignInSection d.place key.path key.last v).map fun root => { d with root := root }

def ofStatements? (ss : List Statement) : Option Document := ss.foldlM step? {}

def dropMark : List Char → List Char
  -- one byte order mark at the very start says nothing
  | '\ufeff' :: cs => cs
  | cs => cs

/-- **The tree a text describes**; none if the text is no document. -/
def parse? (text : String) : Option Entries := do
  let cs := dropMark text.toList
  let ss ← statements? (cs.length + 1) (cs.length + 1) cs
  let d ← ofStatements? ss
  some d.root

end Document
end Toml
end CAbi
