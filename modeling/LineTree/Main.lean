import LineTree.Program

/-!
# The command line

Gathers the arguments, the environment and the source, and writes what the program makes of them.
-/
namespace LineTree.Main

def usage : String :=
  "usage: [-v] [--threads N] COMMAND [FILE]\n" ++
  "  tokens [--json] [--strip-whitespace] [--values]   dump the token tree of every line\n" ++
  "  highlight [--no-color]                            print the source in colours\n" ++
  "  check                                             report mistakes in the source\n"

def version : String := "0.1.0\n"

/-- The environment variables that matter. -/
def relevantKeys : List String :=
  Settings.Key.all.map (·.variableName) ++ ["NO_COLOR", "RUST_LOG"]

def environment : IO Environment := do
  let found ← relevantKeys.filterMapM fun key => do
    return (← IO.getEnv key).map fun value => (key, value.toList)
  return fun key => found.lookup key

/-- The number of an error of the system, which may come with its sign turned. -/
def systemNumber (code : UInt32) : Nat :=
  if code.toNat < twoTo 31 then code.toNat else twoTo 32 - code.toNat

def readFailure : IO.Error → ReadFailure
  | .noFileOrDirectory .. => .notFound
  | .inappropriateType _ code _ => if systemNumber code = 20 then .notAFolder else .isAFolder
  | .invalidArgument _ code _ => if systemNumber code = 36 then .nameTooLong else .zeroInName
  | .permissionDenied .. => .other "Permission denied (os error 13)".toList
  | e => .other e.toString.toList

def readFile (path : Text) : IO (Except ReadFailure ByteArray) := do
  try
    return .ok (← IO.FS.readBinFile (String.ofList path))
  catch e =>
    return .error (readFailure e)

partial def readAll (input : IO.FS.Stream) (read : ByteArray) : IO ByteArray := do
  let more ← input.read 65536
  if more.isEmpty then return read
  readAll input (read ++ more)

/-- The bytes to read, from the file of the command or from the standard input. -/
def fetch (i : Invocation) : IO (Except ReadFailure ByteArray) := do
  match i.command.file? with
  | some path => readFile path
  | none => return .ok (← readAll (← IO.getStdin) ByteArray.empty)

/-- Writes the pieces, up to the first one that fails. -/
def write (output : IO.FS.Stream) : List Piece → IO (Option Failure)
  | [] => return none
  | piece :: rest => do
    try
      output.putStr (String.ofList piece.text)
      output.flush
    catch e =>
      return some (.undelivered piece.form e.toString.toList)
    write output rest

def run (i : Invocation) : IO UInt32 := do
  let finished := i.finish (← environment) (i.source (← fetch i))
  let errors ← IO.getStderr
  errors.putStr (String.ofList finished.log)
  let finished := match ← write (← IO.getStdout) finished.output with
    | some failure => failure.finish finished.log
    | none => finished
  errors.putStr (String.ofList finished.remarks)
  return UInt32.ofNat finished.status

def halt (h : Halt) : IO UInt32 := do
  match h with
  | .helpRequested => (← IO.getStdout).putStr usage
  | .versionRequested => (← IO.getStdout).putStr version
  | h => (← IO.getStderr).putStr ("error: " ++ String.ofList h.message ++ "\n" ++ usage)
  return UInt32.ofNat h.status

end LineTree.Main

def main (words : List String) : IO UInt32 :=
  match LineTree.Arguments.read (words.map String.toList) with
  | .ok invocation => LineTree.Main.run invocation
  | .error h => LineTree.Main.halt h
