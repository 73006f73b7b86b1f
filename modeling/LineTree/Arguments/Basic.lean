import LineTree.Text.Bytes

/-!
# Commands and mistakes on the command line

What a command line can ask for, and why it may ask for nothing.
-/
namespace LineTree

inductive Subcommand where
  | tokens
  | highlight
  | check
  deriving DecidableEq, Repr

namespace Subcommand

def name : Subcommand → String
  | tokens => "tokens"
  | highlight => "highlight"
  | check => "check"

def all : List Subcommand := [tokens, highlight, check]

def ofName? (t : Text) : Option Subcommand := all.find? (·.name.toList = t)

end Subcommand

/-- Options that are given or not, each known to one subcommand. -/
inductive Switch where
  | json
  | stripWhitespace
  | values
  | noColour
  deriving DecidableEq, Repr

/-- What the arguments ask for. -/
inductive Command where
  | tokens (file : Option Text) (json stripWhitespace values : Bool)
  | highlight (file : Option Text) (noColour : Bool)
  | check (file : Option Text)
  deriving DecidableEq, Repr

/-- The file to read; without one the source is the standard input. -/
def Command.file? : Command → Option Text
  | tokens file _ _ _ => file
  | highlight file _ => file
  | check file => file

structure Invocation where
  verbosity : Nat
  threads : Option Nat
  command : Command
  deriving DecidableEq, Repr

/-- Why no command is run. -/
inductive Halt where
  /-- Nothing was given at all. -/
  | nothingGiven
  /-- Options without a subcommand. -/
  | missingSubcommand
  | unknownSubcommand (word : Text)
  /-- An option that the level does not know, a second file, or a subcommand behind `--`. -/
  | unknownArgument (word : Text)
  /-- A value for an option that takes none. -/
  | unexpectedValue (option : Text)
  /-- An option given twice on one level. -/
  | repeatedOption
  /-- An option without its value, or an empty file name. -/
  | missingValue
  /-- A number of threads that is none, or out of range. -/
  | invalidThreads (word : Text)
  | helpRequested
  | versionRequested
  deriving DecidableEq, Repr

namespace Halt

/-- Requests for help and version are no mistakes. -/
def status : Halt → Nat
  | helpRequested | versionRequested => 0
  | _ => 2

/-- The mistake in words. -/
def message : Halt → Text
  | nothingGiven | missingSubcommand => "a subcommand is required".toList
  | unknownSubcommand word => "unknown subcommand ".toList ++ word
  | unknownArgument word => "unexpected argument ".toList ++ word
  | unexpectedValue option => "no value expected for ".toList ++ option
  | repeatedOption => "an option is given more than once".toList
  | missingValue => "a value is missing".toList
  | invalidThreads word => "no number of threads: ".toList ++ word
  | helpRequested => "help".toList
  | versionRequested => "version".toList

end Halt

end LineTree
