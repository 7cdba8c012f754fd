import CAbi.CommandLine.Arguments
import CAbi.CommandLine.Report
import CAbi.Header
import CAbi.Platform
import CAbi.TableFile.Build
import CAbi.Vocabulary
/-!
# CommandLine.Run — the commands

A run is a function of the arguments and of what the named files hold; it comes to an exit status and two texts.
-/
namespace CAbi
namespace CommandLine

structure Result where
  exit : UInt8 := 0
  stdout : String := ""
  stderr : String := ""
  deriving DecidableEq, Repr

/-- What reading a path comes to. -/
abbrev Files := String → Except ReadFailure ByteArray

def Source.load (files : Files) (s : Source) : Except Failure Table :=
  match s.target, s.defs with
  | _, some path => (Table.ofFile path (files path)).mapError (.ofLoad ("loading " ++ path))
  | some name, none => (Platform.load name).mapError (.ofLoad ("loading built-in target " ++ name))
  | none, none => .error ⟨"one of --target or --defs is required", []⟩

/-! ## `emit` -/

/-- **The definitions a request comes to**; a strict one is checked before anything is emitted. -/
def EmitRequest.run (r : EmitRequest) (t : Table) : Except Failure String :=
  let dialect : Dialect := if r.cxx then .cxx else .c
  let policy : UnknownPolicy := if r.strict then .reject else .ignore
  let start : CompilationUnit := { table := t, dialect := dialect, policy := policy }
  let unit := r.presets.foldl CompilationUnit.preset start
  let style : Style := if r.portable then .portable else .resolved
  match (if r.strict then unit.checkRequests r.names else .ok ()) with
  | .error e => .error (.ofRequest e)
  | .ok () => .ok ((unit.requestAll r.names).render style)

/-! ## `check` -/

def padRight (width : Nat) (s : String) : String := String.ofList (s.toList.rightpad width ' ')

def padLeft (width : Nat) (n : UInt32) : String := String.ofList (n.toNat.repr.toList.leftpad width ' ')

def layoutLine (name : String) (layout : Option Layout) : String :=
  padRight 24 name ++ (match layout with
    | some l => " size " ++ padLeft 3 l.size ++ "  align " ++ padLeft 2 l.align
    | none => " incomplete") ++ "\n"

def layoutList (t : Table) (d : Dialect) : String :=
  "# " ++ t.target.summary ++ " [" ++ d.name ++ "]\n" ++
  String.join ((t.names.filter fun n => (t.lookup n d).isSome).map fun n => layoutLine n (t.layoutOf d n))

/-- **The layouts of both dialects, and the words the table leaves out.** -/
def checkResult (t : Table) : Result :=
  let layouts := String.join (Dialect.all.map (layoutList t))
  match t.missingWords Vocabulary.standard with
  | [] => { stdout := layouts }
  | ds =>
    { exit := 1
      stdout := layouts
      stderr := String.join (ds.map fun d => d.text ++ "\n") ++
        Failure.text ⟨ds.length.repr ++ " vocabulary defect(s)", []⟩ }

/-! ## Commands -/

def usage : String :=
  "usage: abitypes targets\n" ++
  "       abitypes header (-t NAME | -d FILE)\n" ++
  "       abitypes emit (-t NAME | -d FILE) [--cxx] [--strict] [--portable] [--preset GUARD]... NAME...\n" ++
  "       abitypes check (-t NAME | -d FILE)\n" ++
  "       abitypes --version\n"

def ofExcept (f : Table → Except Failure Result) (t : Except Failure Table) : Result :=
  match t.bind f with
  | .ok r => r
  | .error e => { exit := 1, stderr := e.text }

def Command.run (files : Files) : Command → Result
  | .version => { stdout := "abitypes 0.1.0\n" }
  | .targets => { stdout := String.join (Platform.names.map fun n => n ++ "\n") }
  | .header s => ofExcept (fun t => .ok { stdout := t.header }) (s.load files)
  | .emit r => ofExcept (fun t => (r.run t).map fun text => { stdout := text }) (r.source.load files)
  | .check s => ofExcept (fun t => .ok (checkResult t)) (s.load files)

/-- **The whole program.**  A command line that asks for nothing there is ends with status 2. -/
def run (files : Files) (args : List String) : Result :=
  match command? args with
  | some command => command.run files
  | none => { exit := 2, stderr := usage }

end CommandLine
end CAbi
