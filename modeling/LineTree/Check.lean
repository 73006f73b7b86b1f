import LineTree.Document

/-!
# Checking a document

The findings of a check are the reports of the scan and an error for every unresolved token, in the
order of their places. A closing bracket that the scan has reported is not reported again.
-/
namespace LineTree

/-- The first place is not behind the second one. -/
def Diagnostic.placedBefore (a b : Diagnostic) : Bool :=
  a.line < b.line || (a.line = b.line && a.start ≤ b.start)

/-- The reports of the scan, and an error for each unresolved token without one. -/
def ScannedLine.findings (l : ScannedLine) : List Diagnostic :=
  let reported := l.diagnostics
  reported ++ l.tree.unrecognized.filter fun u =>
    !(reported.any fun d => d.line = u.line && d.start = u.start)

/-- Everything worth showing about the document, in the order of places. -/
def Document.findings (d : Document) : List Diagnostic :=
  (d.lines.flatMap (·.findings)).mergeSort Diagnostic.placedBefore

end LineTree
