import LineTree.Arguments.Basic

/-!
# Words of the command line

The command line has two levels: words in front of the subcommand and words behind its name. Each
level knows options of its own. Two of them, the verbosity and the number of threads, are known on
both levels.
-/
namespace LineTree.Arguments

/-- The words in front of a subcommand, or those behind its name. -/
inductive Level where
  | top
  | below (subcommand : Subcommand)
  deriving DecidableEq, Repr

/-- The options of the program. -/
inductive Known where
  | help
  | version
  | verbose
  | threads
  | switch (s : Switch)
  deriving DecidableEq, Repr

/-- The long options of a level. -/
def Level.longOptions : Level → List (String × Known)
  | top =>
    [("verbose", .verbose), ("threads", .threads), ("help", .help), ("version", .version)]
  | below .tokens =>
    [("verbose", .verbose), ("threads", .threads), ("help", .help), ("json", .switch .json),
      ("strip-whitespace", .switch .stripWhitespace), ("values", .switch .values)]
  | below .highlight =>
    [("verbose", .verbose), ("threads", .threads), ("help", .help),
      ("no-color", .switch .noColour)]
  | below .check => [("verbose", .verbose), ("threads", .threads), ("help", .help)]

def Level.long? (level : Level) (name : Text) : Option Known :=
  (level.longOptions.find? (·.1.toList = name)).map Prod.snd

def Level.short? : Level → Char → Option Known
  | _, 'v' => some .verbose
  | _, 'h' => some .help
  | .top, 'V' => some .version
  | _, _ => none

/-- The shape of a word. -/
inductive Word where
  /-- Two dashes alone. -/
  | separator
  /-- Two dashes and a name, and what stands behind an equals sign. -/
  | long (name : Text) (value : Option Text)
  /-- A dash and letters. -/
  | short (letters : Text)
  /-- Anything else, a single dash included. -/
  | plain (text : Text)
  deriving DecidableEq, Repr

def Word.ofText (t : Text) : Word :=
  match t with
  | ['-', '-'] => .separator
  | '-' :: '-' :: rest =>
    match rest.dropWhile (· ≠ '=') with
    | _ :: value => .long (rest.takeWhile (· ≠ '=')) (some value)
    | [] => .long rest none
  | '-' :: c :: rest => .short (c :: rest)
  | _ => .plain t

end LineTree.Arguments
