import LineTree.Arguments.Word
import LineTree.Number.Integer

/-!
# What is given on a level

The value of an option and the name of a file wait until the next known word before they are
checked. So of two mistakes the one that is noticed first is not always the one that stands first.
-/
namespace LineTree.Arguments

/-- A word that has been taken but not checked. -/
inductive Pending where
  | nothing
  /-- The threads option, whose value is the next word. -/
  | threadsName
  | threadsValue (word : Text)
  | file (word : Text)
  deriving DecidableEq, Repr

/-- What has been given on one level. -/
structure Given where
  verbosity : Nat := 0
  threads : Option Nat := none
  file : Option Text := none
  switches : List Switch := []
  pending : Pending := .nothing
  deriving DecidableEq, Repr

/-- Reads a number of threads, which is positive and has 32 bits. -/
def readThreads? (t : Text) : Option Nat :=
  match readInteger? t with
  | some n => if 1 ≤ n ∧ n < twoTo 32 then some n.toNat else none
  | none => none

namespace Given

/-- Checks the pending word. -/
def settle (g : Given) : Except Halt Given :=
  match g.pending with
  | .nothing => .ok g
  | .threadsName => .error .missingValue
  | .threadsValue word =>
    if g.threads.isSome then .error .repeatedOption
    else match readThreads? word with
      | some n => .ok { g with threads := some n, pending := .nothing }
      | none => .error (.invalidThreads word)
  | .file word =>
    if word.isEmpty then .error .missingValue
    else .ok { g with file := some word, pending := .nothing }

/-- The counter of the verbosity has eight bits and stops at its end. -/
def verbosityLimit : Nat := 255

/-- Takes an option without a value. -/
def takeOption (g : Given) (option : Known) : Except Halt Given := do
  let g ← g.settle
  match option with
  | .help => .error .helpRequested
  | .version => .error .versionRequested
  | .verbose => .ok { g with verbosity := min (g.verbosity + 1) verbosityLimit }
  | .threads => .ok { g with pending := .threadsName }
  | .switch s =>
    if s ∈ g.switches then .error .repeatedOption
    else .ok { g with switches := s :: g.switches }

/-- Takes a long option. -/
def takeLong (g : Given) (level : Level) (name : Text) (value : Option Text) :
    Except Halt Given :=
  match level.long? name, value with
  | none, _ => .error (.unknownArgument name)
  | some option, none => g.takeOption option
  | some .threads, some word => do
    let g ← g.settle
    { g with pending := .threadsValue word }.settle
  | some _, some _ => .error (.unexpectedValue name)

/-- Takes short options that share a dash, one after the other. -/
def takeShort (g : Given) (level : Level) (letters : Text) : Except Halt Given :=
  letters.foldlM (fun g c =>
    match level.short? c with
    | some option => g.takeOption option
    | none => .error (.unknownArgument ['-', c])) g

/-- Takes a word that is no option. Only a subcommand has a place for it, and only one. -/
def takeFile (g : Given) (level : Level) (word : Text) : Except Halt Given :=
  match level, g.file, g.pending with
  | .top, _, _ => .error (.unknownSubcommand word)
  | _, some _, _ => .error (.unknownArgument word)
  | _, _, .file _ => .error (.unknownArgument word)
  | _, _, _ => do
    let g ← g.settle
    .ok { g with pending := .file word }

end Given

end LineTree.Arguments
