import LineTree.Lexical
import LineTree.Diagnostic.Basic

/-!
# Scanning a line

A scan reads a line one character at a time and keeps the tokens that are still open, the innermost
on top and the line itself at the bottom. The innermost token decides what a character does to
it. At the end of the line every open token is closed. A scan never fails: what it cannot place
becomes an unresolved token, with a report.

The state after a part of the line depends on that part only, since each open token
carries the characters read so far.
-/
namespace LineTree

/-- A token that still takes characters. -/
structure OpenToken where
  kind : Kind
  start : Nat
  /-- The characters read so far, those of the tokens inside included, the last one first. -/
  read : Text := []
  /-- The closed tokens inside, the last one first. -/
  done : List Token := []
  deriving DecidableEq

/-- The token, closed behind the characters read so far. -/
def OpenToken.toToken (o : OpenToken) (line : Nat) : Token :=
  { line, start := o.start, literal := o.read.reverse, kind := o.kind, children := o.done.reverse }

/-- What a scan makes known on the way. -/
inductive ScanEvent where
  /-- A token is complete. -/
  | closed (token : Token)
  /-- Something is wrong. -/
  | reported (diagnostic : Diagnostic)
  deriving DecidableEq

structure Scan where
  /-- Number of the line, from 0. -/
  line : Nat
  /-- Number of bytes read. -/
  offset : Nat
  /-- The innermost open token. -/
  top : OpenToken
  /-- The tokens around it, from the inside out. The last one is the line. -/
  below : List OpenToken
  /-- The events so far, the last one first. -/
  events : List ScanEvent
  deriving DecidableEq

namespace Scan

/-- In front of the first character the indent is open in the line. -/
def start (line : Nat) : Scan where
  line := line
  offset := 0
  top := { kind := .indent, start := 0 }
  below := [{ kind := .line, start := 0 }]
  events := []

/-- The character belongs to the innermost token. -/
def take (s : Scan) (c : Char) : Scan :=
  { s with offset := s.offset + c.utf8Size, top := { s.top with read := c :: s.top.read } }

/-- A token begins at the next character, inside the innermost one. -/
def begin (s : Scan) (kind : Kind) : Scan :=
  { s with top := { kind, start := s.offset }, below := s.top :: s.below }

/-- The innermost token turns into one of another kind. -/
def become (s : Scan) (kind : Kind) : Scan :=
  { s with top := { s.top with kind } }

/-- The innermost token ends behind the last character read. The line never ends here. -/
def close (s : Scan) : Scan :=
  match s.below with
  | [] => s
  | parent :: below =>
    let token := s.top.toToken s.line
    { s with
      top := { parent with read := s.top.read ++ parent.read, done := token :: parent.done }
      below
      events := .closed token :: s.events }

/-- Reports a problem with the next `size` bytes from the given offset on. -/
def report (s : Scan) (problem : Problem) (offset size : Nat) : Scan :=
  { s with events := .reported (problem.diagnostic s.line offset (offset + size)) :: s.events }

/-- The open tokens, from the inside out. -/
def openTokens (s : Scan) : List OpenToken := s.top :: s.below

/-- The innermost bracket group that is open. -/
def innermostBracket? (s : Scan) : Option Bracket := s.openTokens.findSome? (·.kind.bracket?)

/-- The character ends the bracket group on top, if it is one of this shape, and an empty
whitespace token is opened behind it. Any other closing bracket is reported and unresolved. -/
def closeBracket (s : Scan) (bracket : Bracket) (c : Char) : Scan :=
  if s.top.kind = .brackets bracket then ((s.take c).close).begin .whitespace
  else
    ((s.report (.mismatched bracket s.innermostBracket?) s.offset c.utf8Size).begin
      .unresolved).take c

/-- The character begins a token behind one of the given kind. Whitespace is opened at once inside
a bracket group. -/
def beginWith (s : Scan) (previous : Kind) (c : Char) : Scan :=
  let kind := previous.begunBy c
  let s := (s.begin kind).take c
  if kind.isBracket then s.begin .whitespace else s

/-- Reads one character. -/
def step (s : Scan) (c : Char) : Scan :=
  match s.top.kind.effect c with
  | .extend => s.take c
  | .endBefore =>
    match Bracket.ofCloser? c with
    | some bracket => s.close.closeBracket bracket c
    | none => s.close.beginWith s.top.kind c
  | .endWithGap => ((s.take c).close).begin .whitespace
  | .endAfter => (s.take c).close
  | .nest kind => (s.begin kind).take c
  | .become kind => (s.become kind).take c

/-- Reads all characters of the text. -/
def run (s : Scan) (text : Text) : Scan := text.foldl step s

@[simp] theorem run_nil (s : Scan) : s.run [] = s := rfl

@[simp] theorem run_cons (s : Scan) (c : Char) (text : Text) :
    s.run (c :: text) = (s.step c).run text := rfl

theorem run_append (s : Scan) (a b : Text) : s.run (a ++ b) = (s.run a).run b :=
  List.foldl_append

/-- A report about each bracket group that is still open, the outermost first. -/
def unclosed (s : Scan) : List Diagnostic :=
  s.openTokens.reverse.filterMap fun o =>
    o.kind.bracket?.map fun bracket =>
      (Problem.unclosed bracket).diagnostic s.line o.start (o.start + bracket.opener.utf8Size)

/-- Makes the reports about open bracket groups known. -/
def reportUnclosed (s : Scan) : Scan :=
  { s with events := (s.unclosed.map ScanEvent.reported).reverse ++ s.events }

/-- Closes all open tokens but the line. -/
def closeAll (s : Scan) : Scan := s.below.foldl (fun s _ => s.close) s

end Scan

/-- A line that has been scanned. -/
structure ScannedLine where
  /-- The token of the line, with all tokens inside it. -/
  tree : Token
  /-- What happened on the way, in order. -/
  events : List ScanEvent
  deriving DecidableEq

namespace ScannedLine

/-- Scans a line. Whether brackets that are still open at its end are reported is a choice of the
caller; the tree does not depend on it. -/
def ofText (line : Nat) (text : Text) (reportUnclosed : Bool) : ScannedLine :=
  let s := (Scan.start line).run text
  let s := (if reportUnclosed then s.reportUnclosed else s).closeAll
  { tree := s.top.toToken line, events := s.events.reverse }

/-- The reports, in order. -/
def diagnostics (l : ScannedLine) : List Diagnostic :=
  l.events.filterMap fun
    | .reported d => some d
    | .closed _ => none

end ScannedLine

/-- The token tree of a line. -/
def Token.ofLine (line : Nat) (text : Text) : Token := (ScannedLine.ofText line text true).tree

end LineTree
