import LineTree.Arguments.Reading
import LineTree.Delivery
import LineTree.Diagnostic.Snippet
import LineTree.Files
import LineTree.Highlight
import LineTree.LogFilter
import LineTree.Token.Dump
import LineTree.Token.Literal

/-!
# The program

What a command makes of a source: its output in pieces, its status, and the notices on the way. The
program reads one source and writes one output; everything between is a function of the arguments,
the environment and the source.
-/
namespace LineTree

/-- Why a command could not finish. -/
inductive Failure where
  | unreadableFile (path : Text) (cause : ReadFailure)
  | unreadableInput (cause : ReadFailure)
  /-- A sink has refused output. -/
  | undelivered (form : Form) (reason : Text)
  deriving DecidableEq

def Failure.message : Failure → Text
  | unreadableFile path cause =>
    "failed to read '".toList ++ path ++ "': ".toList ++ cause.message
  | unreadableInput cause => "failed to read from stdin: ".toList ++ cause.message
  | undelivered .json reason => "failed to serialize JSON: ".toList ++ reason
  | undelivered .plain reason => "failed to write output: ".toList ++ reason

/-- The output of a command, and its exit status. -/
structure Output where
  pieces : List Piece
  status : Nat
  deriving DecidableEq

namespace Output

/-- The trees of a document, changed as the switches say, in the form of a dump or of JSON. -/
def tokens (d : Document) (json stripWhitespace values : Bool) : Output :=
  let trees := if values then d.trees.map Token.withValues else d.trees
  let trees := if stripWhitespace then trees.map Token.stripped else trees
  { pieces :=
      if json then
        [⟨.json, (Json.array (trees.map Token.toJson)).render⟩, ⟨.plain, ['\n']⟩]
      else trees.map fun t => ⟨.plain, t.dump⟩
    status := 0 }

/-- The lines of a document, painted. -/
def highlight (d : Document) (p : Painting) : Output :=
  { pieces := [⟨.plain, Text.join '\n' (d.trees.map fun t => t.highlighted [] p)⟩], status := 0 }

/-- The findings about a document, each shown with its line. A finding that is an error makes the
status one. -/
def check (d : Document) (source : Text) : Output :=
  let findings := d.findings
  { pieces := (snippets findings source).map fun shown => ⟨.plain, shown ++ ['\n']⟩
    status := if findings.any (·.isError) then 1 else 0 }

end Output

/-- Looks up an environment variable. -/
abbrev Environment := String → Option Text

/-- What has come of a command. -/
structure Report where
  notices : List Notice
  result : Except Failure Output

/-- The settings of a run. The number of threads among the arguments wins. -/
def Invocation.settings (i : Invocation) (environment : Environment) :
    Settings × List Settings.Ignored :=
  let (s, ignored) := Settings.ofLookup environment
  ({ s with threads := i.threads.getD s.threads }, ignored)

/-- Runs a command on a source, which may be unreadable. -/
def Invocation.report (i : Invocation) (environment : Environment) (painting : Painting)
    (source : Except Failure Text) : Report :=
  let (settings, ignored) := i.settings environment
  let first := ignored.map Notice.ignored ++ [.configured settings]
  match source with
  | .error failure => ⟨first, .error failure⟩
  | .ok source =>
    let d := Document.ofText settings source
    match i.command with
    | .tokens _ json stripWhitespace values =>
      ⟨first ++ d.notices, .ok (.tokens d json stripWhitespace values)⟩
    | .highlight _ noColour =>
      ⟨first ++ d.notices, .ok (.highlight d (if noColour then .plain else painting))⟩
    | .check _ => ⟨first ++ d.checkNotices, .ok (.check d source)⟩

/-- Writes the output of a command to a sink with room for so many bytes. -/
def Output.deliverWithin (o : Output) (room : Nat) (reason : Text) : Except Failure Nat :=
  match (deliver room o.pieces).failed with
  | none => .ok o.status
  | some form => .error (.undelivered form reason)

/-- A run of the program as it is seen from outside, in the order of writing. -/
structure Finished where
  /-- The log, on the standard error. -/
  log : Text
  /-- The output, on the standard output. -/
  output : List Piece
  /-- What is said at the end, on the standard error. -/
  remarks : Text
  status : Nat
  deriving DecidableEq

/-- All that goes to the standard error. -/
def Finished.standardError (f : Finished) : Text := f.log ++ f.remarks

/-- The log is shown as the verbosity and the variable `RUST_LOG` say. -/
def Invocation.logFilter (i : Invocation) (environment : Environment) : LogFilter :=
  let f := LogFilter.ofVerbosity i.verbosity
  match environment "RUST_LOG" with
  | some specification => f.overlay specification
  | none => f

/-- Colours are left out on request of the environment. -/
def paintingFor (environment : Environment) : Painting :=
  match environment "NO_COLOR" with
  | some (_ :: _) => .uncoloured
  | _ => .coloured

/-- A failure is named, and its status is two. -/
def Failure.finish (f : Failure) (log : Text) : Finished where
  log := log
  output := []
  remarks := "error: ".toList ++ f.message ++ ['\n']
  status := 2

/-- Runs a command. The findings of a check go to the standard error. -/
def Invocation.finish (i : Invocation) (environment : Environment)
    (source : Except Failure Text) : Finished :=
  let report := i.report environment (paintingFor environment) source
  let log := (report.notices.filter (i.logFilter environment).shows).flatMap Notice.logLine
  match report.result with
  | .error failure => failure.finish log
  | .ok output =>
    let note := if 0 < i.verbosity then
        "note: completed with exit code ".toList ++ writeNat output.status ++ ['\n']
      else []
    match i.command with
    | .check _ =>
      { log, output := [], remarks := wholeText output.pieces ++ note, status := output.status }
    | _ => { log, output := output.pieces, remarks := note, status := output.status }

/-- The bytes that a command reads: those of a file in the folder, or the standard input. -/
def Invocation.fetch (i : Invocation) (here : Entry) (standardInput : ByteArray) :
    Except ReadFailure ByteArray :=
  match i.command.file? with
  | some path => here.contents path
  | none => .ok standardInput

/-- The source that the bytes are the text of. -/
def Invocation.source (i : Invocation) (bytes : Except ReadFailure ByteArray) :
    Except Failure Text :=
  (bytes.bind readText).mapError
    (match i.command.file? with
    | some path => Failure.unreadableFile path
    | none => Failure.unreadableInput)

end LineTree
