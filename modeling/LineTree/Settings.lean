import LineTree.Number.Integer
import LineTree.Text.Blank

/-!
# Settings

How documents are scanned: the number of workers, the least number of lines worth sharing out, and
whether open brackets are reported. Environment variables override the defaults; a variable
whose text is no value is ignored.
-/
namespace LineTree

structure Settings where
  /-- The greatest number of workers for one document. -/
  threads : Nat := 1
  /-- Documents of fewer lines have one worker. -/
  parallelMinLines : Nat := 512
  /-- Whether a bracket still open at the end of its line is reported. -/
  reportUnclosed : Bool := true
  deriving DecidableEq, Repr

namespace Settings

/-- The settings that the environment can override. -/
inductive Key where
  | threads
  | parallelMinLines
  | reportUnclosed
  deriving DecidableEq, Repr

def Key.all : List Key := [threads, parallelMinLines, reportUnclosed]

/-- The environment variable for the setting. -/
def Key.variableName : Key → String
  | threads => "GRPH_LEXER_THREADS"
  | parallelMinLines => "GRPH_LEXER_PARALLEL_MIN_LINES"
  | reportUnclosed => "GRPH_LEXER_REPORT_UNCLOSED"

/-- Reads one of the two truth values. -/
def readBool? (t : Text) : Option Bool :=
  if t = "true".toList then some true
  else if t = "false".toList then some false
  else none

/-- Number of workers for a document of so many lines. -/
def workersFor (s : Settings) (lineCount : Nat) : Nat :=
  if s.threads ≤ 1 ∨ lineCount < max s.parallelMinLines 2 then 1 else min s.threads lineCount

theorem workersFor_pos (s : Settings) (lineCount : Nat) : 0 < s.workersFor lineCount := by
  unfold workersFor
  split <;> omega

/-- Sets one of the settings to the value that the text stands for. -/
def set? (s : Settings) (key : Key) (t : Text) : Option Settings :=
  match key with
  | .threads => (readWord? t).map fun n => { s with threads := n }
  | .parallelMinLines => (readWord? t).map fun n => { s with parallelMinLines := n }
  | .reportUnclosed => (readBool? t).map fun b => { s with reportUnclosed := b }

/-- A variable that was ignored, and its text. -/
structure Ignored where
  key : Key
  raw : Text
  deriving DecidableEq

/-- Applies the variable for one setting. Blank characters around its value do not matter. -/
def apply (lookup : String → Option Text) (s : Settings) (key : Key) :
    Settings × List Ignored :=
  match lookup key.variableName with
  | none => (s, [])
  | some raw =>
    match s.set? key raw.trim with
    | some s => (s, [])
    | none => (s, [⟨key, raw⟩])

/-- The defaults, overridden by the environment, and the variables that were ignored. -/
def ofLookup (lookup : String → Option Text) : Settings × List Ignored :=
  Key.all.foldl (fun (s, ignored) key =>
    let (s, more) := s.apply lookup key
    (s, ignored ++ more)) ({}, [])

end Settings
end LineTree
