import LineTree.Log
import LineTree.Pattern.Reading

/-!
# Filtering the log

A filter is a list of directives. Each gives the greatest level that is shown for the sources whose
names begin in a certain way; of several directives for a source the longest name counts, and of
equally long ones the last. The verbosity sets the level of the sources without a
directive of their own, and a specification such as `info,grph_lexer=debug` comes on top. Behind
a slash it may end in a pattern, and then a message is shown only if the pattern occurs in it.
-/
namespace LineTree

/-- The rank of the last level shown; `0` shows nothing. -/
abbrev Threshold := Nat

structure Directive where
  /-- The beginning of the names of sources; without one all sources. -/
  name : Option Text
  threshold : Threshold
  deriving DecidableEq

structure LogFilter where
  directives : List Directive
  /-- A pattern that has to occur in every message. -/
  pattern : Option Pattern := none
  deriving DecidableEq

namespace LogFilter

/-- The level for a number of requests to be verbose. -/
def ofVerbosity (verbosity : Nat) : LogFilter :=
  { directives := [⟨none, min (verbosity + 2) 5⟩] }

/-- Reads a level, in either case. -/
def readThreshold? (t : Text) : Option Threshold :=
  let word := t.map Char.toLower
  if word = "off".toList then some 0
  else (LogLevel.all.find? (·.name.toList = word)).map LogLevel.rank

/-- Reads one directive: a level, a name, or both with an equals sign between them. -/
def readDirective? (t : Text) : Option Directive :=
  match Text.split '=' t with
  | [word] =>
    match readThreshold? word with
    | some threshold => some ⟨none, threshold⟩
    | none => some ⟨some word, LogLevel.trace.rank⟩
  | [name, level] =>
    if level.trim.isEmpty then some ⟨some name, LogLevel.trace.rank⟩
    else (readThreshold? level.trim).map fun threshold => ⟨some name, threshold⟩
  | _ => none

/-- Adds a directive in the place of the one with the same name. -/
def insert (directives : List Directive) (d : Directive) : List Directive :=
  if directives.any (·.name = d.name) then
    directives.map fun e => if e.name = d.name then d else e
  else directives ++ [d]

/-- Puts a specification on top of the filter. What is no directive and no pattern is passed
over. -/
def overlay (f : LogFilter) (specification : Text) : LogFilter :=
  match Text.split '/' specification with
  | names :: rest =>
    if 1 < rest.length then f
    else
      let words := ((Text.split ',' names).map Text.trim).filter fun w => !w.isEmpty
      { directives := (words.filterMap readDirective?).foldl insert f.directives
        pattern := rest.head?.bind Pattern.read? }
  | [] => f

/-- The directive applies to the source. -/
def appliesTo (d : Directive) (source : Text) : Bool :=
  match d.name with
  | some name => name.isPrefixOf source
  | none => true

/-- The directive with the longer name, the second one if both are equally long. -/
def moreSpecific (best : Option Directive) (d : Directive) : Option Directive :=
  match best with
  | some b =>
    if Text.byteLength (b.name.getD []) ≤ Text.byteLength (d.name.getD []) then some d else some b
  | none => some d

/-- The threshold for a source. -/
def threshold (f : LogFilter) (source : Text) : Threshold :=
  match (f.directives.filter (appliesTo · source)).foldl moreSpecific none with
  | some d => d.threshold
  | none => 0

/-- The notice is shown. -/
def shows (f : LogFilter) (n : Notice) : Bool :=
  n.level.rank ≤ f.threshold n.source.toList
    && f.pattern.all (·.occursIn n.message)

end LogFilter

/-- A notice as a line of the log. -/
def Notice.logLine (n : Notice) : Text :=
  let level := n.level.name.toList.map Char.toUpper
  '[' :: level ++ List.replicate (5 - level.length) ' ' ++ ' ' :: n.source.toList ++ [']', ' ']
    ++ n.message ++ ['\n']

end LineTree
