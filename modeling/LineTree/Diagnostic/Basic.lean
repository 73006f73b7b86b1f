import LineTree.Token.Listing

/-!
# Diagnostics

A diagnostic is a message about a range of bytes of one line. The problems that a scan and the
check after it find are kinds of their own; their wording is settled here and nowhere else.
-/
namespace LineTree

inductive Severity where
  | error
  | warning
  | info
  | hint
  deriving DecidableEq, Repr

namespace Severity

def name : Severity → String
  | error => "error"
  | warning => "warning"
  | info => "info"
  | hint => "hint"

/-- The most severe comes first. -/
def rank : Severity → Nat
  | error => 0
  | warning => 1
  | info => 2
  | hint => 3

/-- Puts the most severe first. -/
def sort (l : List Severity) : List Severity := l.mergeSort fun a b => a.rank ≤ b.rank

end Severity

structure Diagnostic where
  severity : Severity := .error
  /-- Number of the line, from 0. -/
  line : Nat
  /-- Byte offset of the first character. -/
  start : Nat
  /-- Byte offset behind the last character. -/
  stop : Nat
  message : Text
  /-- What to do about it. -/
  hint : Option Text := none
  deriving DecidableEq

namespace Diagnostic

/-- An error that covers the token. -/
def onToken (t : Token) (message : Text) : Diagnostic :=
  { line := t.line, start := t.start, stop := t.stop, message }

def isError (d : Diagnostic) : Bool := d.severity = .error

/-- Place, severity and message on one line, with the line number counted from 1. -/
def summary (d : Diagnostic) : Text :=
  writeNat (d.line + 1) ++ ':' :: writeNat d.start ++ [':', ' '] ++ d.severity.name.toList
    ++ [':', ' '] ++ d.message

end Diagnostic

/-- What can be wrong with a piece of a line. -/
inductive Problem where
  /-- A closing bracket that closes nothing, and the innermost bracket open at it. -/
  | mismatched (found : Bracket) (innermost : Option Bracket)
  /-- A bracket still open at the end of its line. -/
  | unclosed (bracket : Bracket)
  /-- A character without a role. -/
  | unrecognized (literal : Text)
  deriving DecidableEq

namespace Problem

/-- The text between single quotes, as it is. -/
def inQuotes (t : Text) : Text := '\'' :: (t ++ ['\''])

def severity : Problem → Severity
  | unclosed _ => .warning
  | _ => .error

def message : Problem → Text
  | mismatched found _ => "mismatched closing ".toList ++ inQuotes [found.closer]
  | unclosed bracket => "unclosed ".toList ++ inQuotes [bracket.opener]
  | unrecognized literal => "unrecognized character ".toList ++ inQuotes literal

def hint? : Problem → Option Text
  | mismatched _ (some innermost) => some ("expected ".toList ++ inQuotes [innermost.closer])
  | mismatched found none => some ("remove this ".toList ++ inQuotes [found.closer])
  | unclosed bracket => some ("add ".toList ++ inQuotes [bracket.closer])
  | unrecognized _ => none

/-- The problem, reported about a range of a line. -/
def diagnostic (p : Problem) (line start stop : Nat) : Diagnostic :=
  { severity := p.severity, line, start, stop, message := p.message, hint := p.hint? }

end Problem

/-- One error for each unresolved token of the tree, in pre-order. -/
def Token.unrecognized (t : Token) : List Diagnostic :=
  (t.descendants.filter (·.kind = .unresolved)).map fun u =>
    (Problem.unrecognized u.literal).diagnostic u.line u.start u.stop

end LineTree
