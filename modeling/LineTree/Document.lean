import LineTree.Scan.Basic
import LineTree.Settings
import LineTree.Text.Split

/-!
# Documents

A document is scanned line by line. Lines share no state, so a large document is cut into runs of
lines, one for each worker, and the results are put together in order.
-/
namespace LineTree

/-- Cuts a list into runs of `size + 1` items; the last one may be shorter. -/
def runsOf {α : Type} (size : Nat) : List α → List (List α)
  | [] => []
  | a :: rest => (a :: rest.take size) :: runsOf size (rest.drop size)
termination_by l => l.length
decreasing_by
  simp only [List.length_drop, List.length_cons]
  omega

theorem flatten_runsOf {α : Type} (size : Nat) (l : List α) : (runsOf size l).flatten = l := by
  fun_induction runsOf size l with
  | case1 => rfl
  | case2 a rest ih => rw [List.flatten_cons, ih, List.cons_append, List.take_append_drop]

/-- The trees of the lines of a text, scanned one after the other. -/
def Token.ofLines (text : Text) : List Token :=
  (Text.lines text).zipIdx.map fun (piece, line) => Token.ofLine line piece

/-- A scanned document. -/
structure Document where
  /-- The lines of the text, in order. -/
  lines : List ScannedLine
  /-- Number of bytes of the text. -/
  byteCount : Nat
  /-- Number of workers that scanned it. -/
  workers : Nat

namespace Document

/-- Scans lines that stand behind one another, the first one under the given number. -/
def scanRun (reportUnclosed : Bool) (firstLine : Nat) (lines : List Text) : List ScannedLine :=
  (lines.zipIdx firstLine).map fun (text, line) => ScannedLine.ofText line text reportUnclosed

/-- The runs of lines for so many workers, each with the number of its first line. -/
def runsFor (workers : Nat) (lines : List Text) : List (Nat × List Text) :=
  let size := (lines.length + workers - 1) / workers
  (runsOf (size - 1) lines).zipIdx.map fun (run, index) => (index * size, run)

/-- Scans every line of the text. -/
def ofText (settings : Settings) (text : Text) : Document :=
  let lines := Text.lines text
  let workers := settings.workersFor lines.length
  let scanned :=
    if workers ≤ 1 then scanRun settings.reportUnclosed 0 lines
    else
      ((runsFor workers lines).map fun (firstLine, run) =>
        Task.spawn fun _ => scanRun settings.reportUnclosed firstLine run).flatMap Task.get
  { lines := scanned, byteCount := Text.byteLength text, workers }

/-- The trees of the lines. -/
def trees (d : Document) : List Token := d.lines.map (·.tree)

/-- The reports of the lines, in order. -/
def diagnostics (d : Document) : List Diagnostic := d.lines.flatMap (·.diagnostics)

/-- A report of the document is an error. -/
def hasErrors (d : Document) : Bool := d.diagnostics.any (·.isError)

end Document
end LineTree
