import LineTree.Arguments.Given

/-!
# Reading the command line

The words are taken one after the other, first those in front of the subcommand and then those
behind its name. What is given behind the subcommand wins.
-/
namespace LineTree.Arguments

/-- The names that stand in the place of a subcommand. -/
def isSubcommandWord (word : Text) : Bool :=
  word = "help".toList || (Subcommand.ofName? word).isSome

/-- Answers a request for help about the named subcommand. -/
def helpHalt : List Text → Halt
  | [] => .helpRequested
  | [word] => if isSubcommandWord word then .helpRequested else .unknownSubcommand word
  | word :: next :: _ => .unknownSubcommand (if isSubcommandWord word then next else word)

/-- Takes the words behind a `--`, none of which is an option or a subcommand. -/
def readTrailing (level : Level) (g : Given) (words : List Text) : Except Halt Given :=
  words.foldlM (fun g word =>
    if level = .top && isSubcommandWord word then .error (.unknownArgument word)
    else g.takeFile level word) g

/-- Takes the words of one level, up to the name of a subcommand and the words behind it. -/
def readLevel (level : Level) (g : Given) :
    List Text → Except Halt (Given × Option (Subcommand × List Text))
  | [] => .ok (g, none)
  | word :: rest =>
    let expectsValue := g.pending = .threadsName
    if level = .top ∧ ¬ expectsValue ∧ word = "help".toList then .error (helpHalt rest)
    else match (if level = .top ∧ ¬ expectsValue then Subcommand.ofName? word else none) with
      | some subcommand => .ok (g, some (subcommand, rest))
      | none =>
        match Word.ofText word with
        | .separator => (readTrailing level g rest).map fun g => (g, none)
        | .long name value =>
          match g.takeLong level name value with
          | .ok g => readLevel level g rest
          | .error h => .error h
        | .short letters =>
          match g.takeShort level letters with
          | .ok g => readLevel level g rest
          | .error h => .error h
        | .plain word =>
          if expectsValue then readLevel level { g with pending := .threadsValue word } rest
          else match g.takeFile level word with
            | .ok g => readLevel level g rest
            | .error h => .error h

/-- The command that a subcommand with these options and this file is. -/
def command (subcommand : Subcommand) (g : Given) : Command :=
  match subcommand with
  | .tokens =>
    .tokens g.file (g.switches.contains .json) (g.switches.contains .stripWhitespace)
      (g.switches.contains .values)
  | .highlight => .highlight g.file (g.switches.contains .noColour)
  | .check => .check g.file

/-- Reads the words behind the name of a subcommand. -/
def readBelow (subcommand : Subcommand) (words : List Text) : Except Halt Given := do
  let (g, _) ← readLevel (.below subcommand) {} words
  g.settle

/-- Reads all arguments. The words behind the subcommand are checked first. -/
def read (words : List Text) : Except Halt Invocation := do
  let (top, found) ← readLevel .top {} words
  match found with
  | some (subcommand, rest) =>
    let below ← readBelow subcommand rest
    let top ← top.settle
    .ok {
      verbosity := if 0 < below.verbosity then below.verbosity else top.verbosity
      threads := below.threads.or top.threads
      command := command subcommand below }
  | none =>
    let top ← top.settle
    if top.verbosity = 0 ∧ top.threads = none then .error .nothingGiven
    else .error .missingSubcommand

end LineTree.Arguments
