import CAbi.Identifier
/-!
# Template — macro names made from type names

A template is text with one placeholder: `{name}` stands for the type name as it is, `{NAME}` for the type name in ASCII
upper case.  Expansion is two replacements, one after the other over the whole text.
-/
namespace CAbi
namespace Template

def lowerMark : List Char := "\x7bname\x7d".toList

def upperMark : List Char := "\x7bNAME\x7d".toList

/-- Replacement from a place `skip` characters before the end of the last occurrence of the mark. -/
def replaceFrom (mark text : List Char) : Nat → List Char → List Char
  | _, [] => []
  | skip + 1, _ :: cs => replaceFrom mark text skip cs
  | 0, c :: cs =>
    if mark.isPrefixOf (c :: cs) then text ++ replaceFrom mark text (mark.length - 1) cs
    else c :: replaceFrom mark text 0 cs

/-- **Every occurrence of the mark, from the left, replaced.** -/
def replaceAll (mark text cs : List Char) : List Char := replaceFrom mark text 0 cs

/-- The number of places at which the mark stands.  Neither placeholder can overlap itself. -/
def occurrences (mark : List Char) : List Char → Nat
  | [] => 0
  | c :: cs => (if mark.isPrefixOf (c :: cs) then 1 else 0) + occurrences mark cs

def upperCase (cs : List Char) : List Char := cs.map Char.toUpper

/-- **The macro name a template makes of a type name.** -/
def expandChars (template name : List Char) : List Char :=
  replaceAll upperMark (upperCase name) (replaceAll lowerMark name template)

def expand (template name : String) : String := String.ofList (expandChars template.toList name.toList)

def hasOnePlaceholder (template : String) : Bool :=
  occurrences lowerMark template.toList + occurrences upperMark template.toList == 1

def makesIdentifier (template : String) : Bool :=
  Identifier.valid (expandChars template.toList ['x'])

end Template
end CAbi
