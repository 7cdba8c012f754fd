import CAbi.CommandLine.Run
/-!
# Main — the command line program

The outer layer: it reads the one file a command may name, runs the command, and writes what it comes to.
-/
namespace CAbi
namespace Main

/-- The file a command reads, if it reads one. -/
def fileOf : CommandLine.Command → Option String
  | .header s => s.defs
  | .emit r => r.source.defs
  | .check s => s.defs
  | _ => none

/-- The system's number for an error; some calls report it negated. -/
def systemNumber (code : UInt32) : UInt32 := if code < 0x80000000 then code else 0 - code

def failureOf (e : IO.Error) : ReadFailure :=
  match e with
  | .noFileOrDirectory .. => .notFound
  | .permissionDenied _ code _ => if systemNumber code = 13 then .permissionDenied else .other (toString e)
  | .inappropriateType _ code _ => if systemNumber code = 20 then .notDirectory else .isDirectory
  | .invalidArgument _ code _ => if systemNumber code = 36 then .nameTooLong else .other (toString e)
  | _ => .other (toString e)

def readFile (path : String) : IO (Except ReadFailure ByteArray) := do
  try
    return .ok (← IO.FS.readBinFile path)
  catch e =>
    return .error (failureOf e)

/-- Runs a command line and gives its exit status. -/
def run (args : List String) : IO UInt32 := do
  let contents ← match (CommandLine.command? args).bind fileOf with
    | some path => readFile path
    | none => pure (.error .notFound)
  let result := CommandLine.run (fun _ => contents) args
  IO.print result.stdout
  IO.eprint result.stderr
  return result.exit.toUInt32

end Main
end CAbi

def main (args : List String) : IO UInt32 := CAbi.Main.run args
