import LineTree.Diagnostic.Basic
import LineTree.Text.Split

/-!
# Snippets

A diagnostic shown with its line of text: the message, the place counted from 1, the line with
every tab as one space, and a caret under the first character of the range with a tilde under each
other one. A range that the line does not have still gets a caret.
-/
namespace LineTree

namespace Diagnostic

/-- The characters in front of the range, or all of them where the range has no beginning. -/
def charsBefore (d : Diagnostic) (lineText : Text) : Nat :=
  match Text.splitAtByte? lineText d.start with
  | some (before, _) => before.length
  | none => lineText.length

/-- The characters of the range, or none where the line has no such range. -/
def charsMarked (d : Diagnostic) (lineText : Text) : Nat :=
  match Text.slice? lineText d.start (max d.stop d.start) with
  | some marked => marked.length
  | none => 0

/-- The line as it is shown. -/
def untabbed (lineText : Text) : Text := lineText.map fun c => if c = '\t' then ' ' else c

/-- A caret in its column, and tildes up to the end of the range. -/
def underline (before marked : Nat) : Text :=
  List.replicate before ' ' ++ '^' :: List.replicate (max marked 1 - 1) '~'

/-- The rows, without a newline at the end. -/
def snippet (d : Diagnostic) (lineText : Text) : Text :=
  let number := writeNat (d.line + 1)
  let before := d.charsBefore lineText
  let rule : Text := [' ', '|', ' ']
  d.severity.name.toList ++ [':', ' '] ++ d.message
    ++ "\n --> line ".toList ++ number ++ ", col ".toList ++ writeNat (before + 1)
    ++ '\n' :: number ++ rule ++ untabbed lineText
    ++ '\n' :: List.replicate number.length ' ' ++ rule
    ++ underline before (d.charsMarked lineText)
    ++ (match d.hint with
      | some hint => "\nhelp: ".toList ++ hint
      | none => [])

end Diagnostic

/-- The snippets of diagnostics about the lines of a source. -/
def snippets (diagnostics : List Diagnostic) (source : Text) : List Text :=
  let lines := (Text.lines source).toArray
  diagnostics.map fun d => d.snippet (lines[d.line]?.getD [])

end LineTree
