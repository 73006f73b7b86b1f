import LineTree.Check
import LineTree.Text.Quoted

/-!
# Log

What the program makes known about its own work, as notices with a level and a source. A notice
holds the facts; its wording is settled here.
-/
namespace LineTree

inductive LogLevel where
  | error
  | warn
  | info
  | debug
  | trace
  deriving DecidableEq, Repr

namespace LogLevel

/-- The most severe comes first. -/
def rank : LogLevel → Nat
  | error => 1
  | warn => 2
  | info => 3
  | debug => 4
  | trace => 5

def all : List LogLevel := [error, warn, info, debug, trace]

def name : LogLevel → String
  | error => "error"
  | warn => "warn"
  | info => "info"
  | debug => "debug"
  | trace => "trace"

end LogLevel

inductive Notice where
  | ignored (entry : Settings.Ignored)
  | configured (settings : Settings)
  | reading (lines bytes workers : Nat)
  | scanned (event : ScanEvent)
  | checked (lines findings : Nat)
  deriving DecidableEq

namespace Notice

def level : Notice → LogLevel
  | ignored _ => .warn
  | configured _ => .debug
  | reading .. => .debug
  | scanned (.closed _) => .trace
  | scanned (.reported _) => .debug
  | checked .. => .info

/-- The part of the program that speaks. -/
def source : Notice → String
  | ignored _ => "grph_lexer::config"
  | configured _ => "grph"
  | reading .. => "grph_lexer::document"
  | scanned _ => "grph_lexer::lexer"
  | checked .. => "grph"

def boolText (b : Bool) : Text := (if b then "true" else "false").toList

def message : Notice → Text
  | ignored entry =>
    "ignoring ".toList ++ entry.key.variableName.toList ++ '=' :: entry.raw.quote
      ++ ": not a valid value".toList
  | configured s =>
    "lexer configuration: LexerConfig \x7b threads: ".toList ++ writeNat s.threads
      ++ ", parallel_min_lines: ".toList ++ writeNat s.parallelMinLines
      ++ ", report_unclosed_brackets: ".toList ++ boolText s.reportUnclosed ++ " \x7d".toList
  | reading lines bytes workers =>
    "tokenizing ".toList ++ writeNat lines ++ " lines (".toList ++ writeNat bytes
      ++ " bytes) with ".toList ++ writeNat workers ++ " worker(s)".toList
  | scanned (.closed t) =>
    "line ".toList ++ writeNat t.line ++ ": ".toList ++ t.kind.name.toList ++ ' ' :: t.literal.quote
      ++ " at ".toList ++ writeNat t.start
  | scanned (.reported d) =>
    "line ".toList ++ writeNat (d.line + 1) ++ ": ".toList ++ d.message
  | checked lines findings =>
    "checked ".toList ++ writeNat lines ++ " lines, ".toList ++ writeNat findings
      ++ " diagnostic(s)".toList

end Notice

/-- The notices of scanning a line, in order. -/
def ScannedLine.notices (l : ScannedLine) : List Notice := l.events.map .scanned

/-- The notices of scanning a document. Several workers keep the events of their lines to
themselves. -/
def Document.notices (d : Document) : List Notice :=
  .reading d.lines.length d.byteCount d.workers
    :: (if d.workers ≤ 1 then d.lines.flatMap (·.notices) else [])

/-- The notices of scanning a document and checking it. -/
def Document.checkNotices (d : Document) : List Notice :=
  d.notices ++ [.checked d.lines.length d.findings.length]

end LineTree
