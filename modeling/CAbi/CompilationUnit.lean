import CAbi.Definition
import CAbi.Guard.Set
/-!
# CompilationUnit — requests, answered once

A unit asks for types by name, in program order.  A request is answered by emitting the table's definition and setting
its guards; a request whose guards have been met before is answered by nothing.  Guards may also come from outside:
preset one by one, or all those of a name that another producer has defined.

A unit holds the table it reads, the guards set so far and the definitions emitted so far.  Nothing is ever taken back.
-/
namespace CAbi

/-- **What a request for an unknown name is.** -/
inductive UnknownPolicy where
  | ignore
  | reject
  deriving DecidableEq, Repr

inductive Outcome where
  | emitted
  /-- One of the guards was set before; nothing was emitted. -/
  | alreadyDefined
  | otherDialect
  | unknown
  deriving DecidableEq, Repr

inductive RequestError where
  | unknownType (name target : String) (dialect : Dialect)
  | unknownTypes (names : List String) (target : String)
  deriving DecidableEq, Repr

def RequestError.message : RequestError → String
  | .unknownType name target dialect =>
    "type '" ++ name ++ "' is not in the " ++ dialect.name ++ " layout table of target '" ++ target ++ "'"
  | .unknownTypes names target =>
    names.length.repr ++ " requested type(s) missing from target '" ++ target ++ "': " ++ ", ".intercalate names

structure CompilationUnit where
  table : Table
  dialect : Dialect := .c
  policy : UnknownPolicy := .ignore
  guards : GuardSet := .empty
  emitted : List Definition := []

namespace CompilationUnit

/-- A guard set by another producer. -/
def preset (u : CompilationUnit) (guard : String) : CompilationUnit := { u with guards := u.guards.insert guard }

/-- **The guards of a name set without a definition.** -/
def markDefined (u : CompilationUnit) (name : String) : CompilationUnit :=
  { u with guards := u.guards.insertAll (u.table.guardsOf u.dialect name) }

def isDefined (u : CompilationUnit) (name : String) : Bool :=
  u.guards.containsAny (u.table.guardsOf u.dialect name)

def emit (u : CompilationUnit) (d : Definition) : CompilationUnit :=
  { u with guards := u.guards.insertAll d.guards, emitted := u.emitted ++ [d] }

/-- **One request**: what came of it, and the unit after it.  Only an unknown name under the rejecting policy is an
error. -/
def tryRequest (u : CompilationUnit) (name : String) : Except RequestError Outcome × CompilationUnit :=
  if u.isDefined name then (.ok .alreadyDefined, u)
  else
    match u.table.resolve u.dialect name with
    | .defined d => (.ok .emitted, u.emit d)
    | .otherDialect => (.ok .otherDialect, u)
    | .unknown =>
      match u.policy with
      | .ignore => (.ok .unknown, u)
      | .reject => (.error (.unknownType name u.table.target.name u.dialect), u)

def request (u : CompilationUnit) (name : String) : CompilationUnit := (u.tryRequest name).2

def requestAll (u : CompilationUnit) (names : List String) : CompilationUnit := names.foldl request u

/-- **The names a table has no entry for, in any dialect**, found before anything is requested. -/
def checkRequests (u : CompilationUnit) (names : List String) : Except RequestError Unit :=
  match names.filter fun n => !u.table.contains n with
  | [] => .ok ()
  | missing => .error (.unknownTypes missing u.table.target.name)

def render (u : CompilationUnit) (style : Style) : String := Definition.renderAll u.emitted u.table.target style

end CompilationUnit
end CAbi
