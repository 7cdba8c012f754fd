/-!
# CommandLine.Arguments — what the command line asks for

The first word names the command; what follows are options and, for `emit`, names.  A value may be attached to its
option (`-tNAME`, `-t=NAME`, `--target=NAME`) or be the next argument, which then may not look like an option itself.
After `--` everything is a name.  An option that is not repeatable is given at most once, and a table comes from a
built-in target or from a file, not from both.

There is one way to be wrong here, and it is to be refused (`none`).
-/
namespace CAbi
namespace CommandLine

inductive Flag where
  | cxx
  | strict
  | portable
  deriving DecidableEq, Repr

/-- The options that take a value. -/
inductive Setting where
  | target
  | defs
  | preset
  deriving DecidableEq, Repr

inductive Argument where
  | flag (f : Flag)
  | setting (s : Setting) (value : String)
  | name (text : String)
  deriving DecidableEq, Repr

structure Source where
  target : Option String := none
  defs : Option String := none
  deriving DecidableEq, Repr

structure EmitRequest where
  source : Source
  cxx : Bool
  strict : Bool
  portable : Bool
  presets : List String
  names : List String
  deriving DecidableEq, Repr

inductive Command where
  | version
  | targets
  | header (source : Source)
  | emit (request : EmitRequest)
  | check (source : Source)
  deriving DecidableEq, Repr

structure Accepts where
  flags : List (String × Flag) := []
  long : List (String × Setting) := []
  short : List (Char × Setting) := []
  takesNames : Bool := false

namespace Accepts

def nothing : Accepts := {}

/-- A table, and nothing else. -/
def table : Accepts :=
  { long := [("target", .target), ("defs", .defs)], short := [('t', .target), ('d', .defs)] }

def emission : Accepts :=
  { table with
    flags := [("cxx", .cxx), ("strict", .strict), ("portable", .portable)]
    long := ("preset", .preset) :: table.long
    takesNames := true }

end Accepts

/-- **One argument by its form.** -/
inductive Form where
  | endOfOptions
  /-- `--word`, with what follows the first equals sign. -/
  | long (word : String) (attached : Option String)
  /-- `-c`, with what follows the letter. -/
  | short (letter : Char) (attached : List Char)
  | word (text : String)

namespace Form

def ofLong (cs : List Char) : Form :=
  match cs.dropWhile (· != '=') with
  | _ :: attached => .long (String.ofList (cs.takeWhile (· != '='))) (some (String.ofList attached))
  | [] => .long (String.ofList cs) none

def ofText (s : String) : Form :=
  match s.toList with
  | ['-', '-'] => .endOfOptions
  | '-' :: '-' :: cs => ofLong cs
  | '-' :: c :: cs => .short c cs
  | _ => .word s

end Form

/-- The value attached to a short option; one equals sign between the two is not part of it. -/
def shortValue? : List Char → Option String
  | [] => none
  | '=' :: cs => some (String.ofList cs)
  | cs => some (String.ofList cs)

/-- An argument that can be the value of the option before it. -/
def plainWord? (s : String) : Option String :=
  match Form.ofText s with
  | .word text => some text
  | _ => none

/-- An argument that still may lack its value. -/
inductive Pending where
  | done (a : Argument)
  | needs (s : Setting)

/-- **An option by itself**; none if the command does not take it in this form. -/
def Accepts.option? (accepts : Accepts) : Form → Option Pending
  | .long word attached =>
    match accepts.flags.lookup word, accepts.long.lookup word, attached with
    | some f, _, none => some (.done (.flag f))
    | none, some s, some value => some (.done (.setting s value))
    | none, some s, none => some (.needs s)
    | _, _, _ => none
  | .short letter attached =>
    (accepts.short.lookup letter).map fun s =>
      match shortValue? attached with
      | some value => .done (.setting s value)
      | none => .needs s
  | .word text => if accepts.takesNames then some (.done (.name text)) else none
  | .endOfOptions => none

/-- **The arguments of a command**, in order. -/
def arguments? (accepts : Accepts) : List String → Option (List Argument)
  | [] => some []
  | "--" :: rest => if rest.isEmpty || accepts.takesNames then some (rest.map .name) else none
  | a :: rest =>
    match accepts.option? (.ofText a), rest with
    | none, _ => none
    | some (.done argument), rest => (arguments? accepts rest).map (argument :: ·)
    | some (.needs _), [] => none
    | some (.needs s), value :: rest =>
      (plainWord? value).bind fun value => (arguments? accepts rest).map (.setting s value :: ·)

/-! ## From arguments to a command -/

def valuesOf (s : Setting) (as : List Argument) : List String :=
  as.filterMap fun
    | .setting s' value => if s' = s then some value else none
    | _ => none

def namesOf (as : List Argument) : List String :=
  as.filterMap fun
    | .name text => some text
    | _ => none

def single? (s : Setting) (as : List Argument) : Option (Option String) :=
  match valuesOf s as with
  | [] => some none
  | [value] => some (some value)
  | _ => none

def flagOf? (f : Flag) (as : List Argument) : Option Bool :=
  match as.count (.flag f) with
  | 0 => some false
  | 1 => some true
  | _ => none

/-- **The source of a table.**  A file has a name that is not empty. -/
def source? (as : List Argument) : Option Source := do
  let target ← single? .target as
  let defs ← single? .defs as
  if defs = some "" || (target.isSome && defs.isSome) then none
  else some { target := target, defs := defs }

def emitRequest? (as : List Argument) : Option EmitRequest := do
  let source ← source? as
  let cxx ← flagOf? .cxx as
  let strict ← flagOf? .strict as
  let portable ← flagOf? .portable as
  let names := namesOf as
  if names.isEmpty then none
  else some { source := source, cxx := cxx, strict := strict, portable := portable, presets := valuesOf .preset as,
              names := names }

/-- The question for the version, alone or at the head of a bundle of letters. -/
def asksVersion (s : String) : Bool :=
  match Form.ofText s with
  | .long word none => word == "version"
  | .short letter _ => letter == 'V'
  | _ => false

/-- **The command a command line asks for**; none if it asks for nothing there is. -/
def command? : List String → Option Command
  | [] => none
  | "targets" :: rest => (arguments? .nothing rest).map fun _ => .targets
  | "header" :: rest => ((arguments? .table rest).bind source?).map .header
  | "emit" :: rest => ((arguments? .emission rest).bind emitRequest?).map .emit
  | "check" :: rest => ((arguments? .table rest).bind source?).map .check
  | a :: _ => if asksVersion a then some .version else none

end CommandLine
end CAbi
