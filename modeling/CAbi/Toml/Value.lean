/-!
# Toml.Value — what a document holds

A table remembers how it came about, since that decides what may still be added to it: a table in braces is closed,
one with a header of its own is open to further headers, and one that only exists because a path runs through it may
still be given its header.
-/
namespace CAbi
namespace Toml

/-- **How a table came about**: in braces or by a header of its own, or because a path runs through it, that of a key
in braces, of a header, or of a key in a section. -/
inductive TableOrigin where
  | inline
  | inlinePath
  | header
  | headerPath
  | keyPath
  deriving DecidableEq, Repr

def TableOrigin.isDotted : TableOrigin → Bool
  | .inlinePath => true
  | .keyPath => true
  | _ => false

def TableOrigin.isInline : TableOrigin → Bool
  | .inline => true
  | .inlinePath => true
  | _ => false

inductive Value where
  | text (s : String)
  | integer (n : Int)
  | float
  | dateTime
  | boolean (b : Bool)
  | array (elements : List Value)
  /-- The tables of a repeated double-bracket header. -/
  | tables (elements : List (List (String × Value)))
  | table (origin : TableOrigin) (entries : List (String × Value))

abbrev Entries := List (String × Value)

namespace Entries

def get? (es : Entries) (key : String) : Option Value := es.lookup key

def replace (es : Entries) (key : String) (v : Value) : Entries := es.map fun p => if p.1 == key then (key, v) else p

def add? (es : Entries) (key : String) (v : Value) : Option Entries :=
  if (es.get? key).isSome then none else some (es ++ [(key, v)])

/-- **A change deep inside.**  The path leads through tables that `enter` lets in and through the last of repeated
tables; where it leads nowhere yet, tables of the origin `fresh` are made.  `change` gets the table at its end, and
how that came about. -/
def updateAt (enter : TableOrigin → Bool) (fresh : TableOrigin) (change : TableOrigin → Entries → Option Entries) :
    List String → TableOrigin → Entries → Option Entries
  | [], origin, es => change origin es
  | key :: path, _, es =>
    match es.get? key with
    | none => (updateAt enter fresh change path fresh []).map fun inner => es ++ [(key, .table fresh inner)]
    | some (.table origin inner) =>
      if enter origin then
        (updateAt enter fresh change path origin inner).map fun inner => es.replace key (.table origin inner)
      else none
    | some (.tables ts) =>
      match ts.getLast? with
      | some last =>
        (updateAt enter fresh change path .header last).map fun last => es.replace key (.tables (ts.dropLast ++ [last]))
      | none => none
    | some _ => none

/-- The end of an assignment: a key that comes with a path may only go into a table that such a path made, and one
without may not. -/
def assignHere (hasPath : Bool) (key : String) (v : Value) (origin : TableOrigin) (es : Entries) : Option Entries :=
  if origin.isDotted == hasPath then es.add? key v else none

def assignInline (es : Entries) (path : List String) (key : String) (v : Value) : Option Entries :=
  updateAt (· == .inlinePath) .inlinePath (assignHere (!path.isEmpty) key v) path .inline es

def assignFrom (path : List String) (key : String) (v : Value) (origin : TableOrigin) (es : Entries) : Option Entries :=
  -- a table with a header of its own is not entered
  updateAt (fun o => o == .keyPath || o == .headerPath) .keyPath (assignHere (!path.isEmpty) key v) path origin es

def assignInSection (es : Entries) (place path : List String) (key : String) (v : Value) : Option Entries :=
  updateAt (!·.isInline) .headerPath (assignFrom path key v) place .header es

def openHere (key : String) (_ : TableOrigin) (es : Entries) : Option Entries :=
  match es.get? key with
  | none => some (es ++ [(key, .table .header [])])
  -- a table that was only passed through may still be given its header
  | some (.table .headerPath inner) => some (es.replace key (.table .header inner))
  | some _ => none

def openSection (es : Entries) (path : List String) (key : String) : Option Entries :=
  updateAt (!·.isInline) .headerPath (openHere key) path .header es

def repeatHere (key : String) (_ : TableOrigin) (es : Entries) : Option Entries :=
  match es.get? key with
  | none => some (es ++ [(key, .tables [[]])])
  | some (.tables ts) => some (es.replace key (.tables (ts ++ [[]])))
  | some _ => none

def repeatSection (es : Entries) (path : List String) (key : String) : Option Entries :=
  updateAt (!·.isInline) .headerPath (repeatHere key) path .header es

end Entries
end Toml
end CAbi
