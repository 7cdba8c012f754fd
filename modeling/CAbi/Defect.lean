import CAbi.Dialect
/-!
# Defect — what can be wrong with a table

Each defect is a cause with what it is about.  Its code names the check that found it, its entry the name it concerns,
and `text` is the one place that words it.
-/
namespace CAbi

inductive Defect where
  /-- Two entries of one name cover the same dialect. -/
  | duplicate (entry : String) (existing new : Scope)
  | zeroWidth (kind target : String)
  | zeroAlignment (kind : String)
  | emptyBuiltin (name : String)
  | placeholderCount (template : String)
  | notAnIdentifier (template : String)
  | tagOnlyWithoutTag (entry : String)
  | noFields (entry : String)
  | zeroLengthField (entry field : String)
  | noViews (entry : String)
  | viewWithoutCount (entry view : String)
  /-- A reference to a name without an entry for the dialect. -/
  | unresolved (entry reference : String) (dialect : Dialect)
  /-- A reference that leads back to the entry it stands in. -/
  | cycle (entry reference : String)
  /-- A word of the vocabulary without an entry for a dialect it covers. -/
  | missingWord (word : String) (dialect : Dialect) (target : String)
  /-- A section of a table file that declares nothing. -/
  | noBody (entry : String)
  /-- A section of a table file that declares more than one thing. -/
  | severalBodies (entry : String)
  deriving DecidableEq, Repr

namespace Defect

def code : Defect → String
  | .duplicate .. => "table.duplicate"
  | .zeroWidth .. => "table.target"
  | .zeroAlignment .. => "table.target"
  | .emptyBuiltin .. => "table.target"
  | .placeholderCount .. => "table.guard-template"
  | .notAnIdentifier .. => "table.guard-template"
  | .tagOnlyWithoutTag .. => "table.body"
  | .noFields .. => "table.body"
  | .zeroLengthField .. => "table.body"
  | .noViews .. => "table.body"
  | .viewWithoutCount .. => "table.body"
  | .unresolved .. => "table.unresolved"
  | .cycle .. => "table.cycle"
  | .missingWord .. => "table.vocabulary"
  | .noBody .. => "table.body"
  | .severalBodies .. => "table.body"

/-- The name the defect concerns; the checks of target and guards concern none. -/
def entry? : Defect → Option String
  | .duplicate e _ _ => some e
  | .zeroWidth _ _ => none
  | .zeroAlignment _ => none
  | .emptyBuiltin _ => none
  | .placeholderCount _ => none
  | .notAnIdentifier _ => none
  | .tagOnlyWithoutTag e => some e
  | .noFields e => some e
  | .zeroLengthField e _ => some e
  | .noViews e => some e
  | .viewWithoutCount e _ => some e
  | .unresolved e _ _ => some e
  | .cycle e _ => some e
  | .missingWord w _ _ => some w
  | .noBody e => some e
  | .severalBodies e => some e

def detail : Defect → String
  | .duplicate _ existing new =>
    "conflicting definitions for the same dialect (" ++ existing.label ++ " vs " ++ new.label ++ ")"
  | .zeroWidth kind target => "width of " ++ kind ++ " is zero on target '" ++ target ++ "'"
  | .zeroAlignment kind => "alignment override for " ++ kind ++ " is zero"
  | .emptyBuiltin name => "builtin '" ++ name ++ "' needs a nonzero size and alignment"
  | .placeholderCount template =>
    "guard template '" ++ template ++ "' must contain exactly one \x7bname\x7d or \x7bNAME\x7d"
  | .notAnIdentifier template => "guard template '" ++ template ++ "' does not expand to a C identifier"
  | .tagOnlyWithoutTag _ => "tag-only record declares no tag"
  | .noFields _ => "record declares no fields"
  | .zeroLengthField _ field => "field '" ++ field ++ "' has a zero-length array"
  | .noViews _ => "opaque handle declares no views"
  | .viewWithoutCount _ view => "view '" ++ view ++ "' needs a positive element count"
  | .unresolved _ reference dialect => "refers to '" ++ reference ++ "' which has no " ++ dialect.name ++ " layout"
  | .cycle _ reference => "reference to '" ++ reference ++ "' leads back to itself"
  | .missingWord _ dialect target => "no layout for " ++ dialect.name ++ " on target '" ++ target ++ "'"
  | .noBody _ => "entry needs one of 'typedef', 'record' or 'opaque'"
  | .severalBodies _ => "entry sets more than one of 'typedef', 'record' and 'opaque'"

def text (d : Defect) : String :=
  "[" ++ d.code ++ "] " ++ (match d.entry? with
    | some e => e ++ ": "
    | none => "") ++ d.detail

end Defect
end CAbi
