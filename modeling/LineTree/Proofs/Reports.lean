import LineTree.Proofs.Finish

/-!
# What a scan reports

The two reports of a scan, word for word, and where they stand among the reports of a line: those
about closing brackets in the order of the line, those about open groups behind them. Main
statement: `ScannedLine.diagnostics_eq`.
-/
namespace LineTree

namespace Diagnostic

/-- A closing bracket that does not close the innermost group. -/
def mismatched (line offset : Nat) (found : Bracket) (innermost : Option Bracket) : Diagnostic where
  severity := .error
  line := line
  start := offset
  stop := offset + 1
  message := "mismatched closing ".toList ++ ['\'', found.closer, '\'']
  hint :=
    match innermost with
    | some bracket => "expected ".toList ++ ['\'', bracket.closer, '\'']
    | none => "remove this ".toList ++ ['\'', found.closer, '\'']

/-- A group that is open at the end of the line. -/
def unclosed (line offset : Nat) (bracket : Bracket) : Diagnostic where
  severity := .warning
  line := line
  start := offset
  stop := offset + 1
  message := "unclosed ".toList ++ ['\'', bracket.opener, '\'']
  hint := "add ".toList ++ ['\'', bracket.closer, '\'']

end Diagnostic

theorem Problem.mismatched_diagnostic (line offset : Nat) (found : Bracket)
    (innermost : Option Bracket) :
    (mismatched found innermost).diagnostic line offset (offset + found.closer.utf8Size) =
      .mismatched line offset found innermost := by
  have size : found.closer.utf8Size = 1 := by cases found <;> rfl
  rw [diagnostic, size]
  cases innermost <;> rfl

theorem Problem.unclosed_diagnostic (line offset : Nat) (bracket : Bracket) :
    (unclosed bracket).diagnostic line offset (offset + bracket.opener.utf8Size) =
      .unclosed line offset bracket := by
  have size : bracket.opener.utf8Size = 1 := by cases bracket <;> rfl
  rw [diagnostic, size]
  rfl

/-- The report that an event makes known. -/
def ScanEvent.report? : ScanEvent → Option Diagnostic
  | .closed _ => none
  | .reported d => some d

theorem ScanEvent.filterMap_closed (tokens : List Token) :
    (tokens.map closed).filterMap report? = [] := by
  simp [report?]

namespace Scan

/-- The reports so far, in order. -/
def reports (s : Scan) : List Diagnostic := s.events.reverse.filterMap ScanEvent.report?

/-- The reports about open groups, word for word. -/
theorem unclosed_eq (s : Scan) : s.unclosed = s.openTokens.reverse.filterMap fun o =>
    o.kind.bracket?.map (.unclosed s.line o.start) := by
  unfold unclosed
  congr 1
  funext o
  congr 1
  funext b
  exact Problem.unclosed_diagnostic s.line o.start b

theorem reports_step {s : Scan} {c : Char} {events : List ScanEvent}
    (h : (s.step c).events = events.reverse ++ s.events) :
    (s.step c).reports = s.reports ++ events.filterMap ScanEvent.report? := by
  simp [reports, h]

end Scan

theorem ScannedLine.diagnostics_eq_filterMap (l : ScannedLine) :
    l.diagnostics = l.events.filterMap ScanEvent.report? := by
  unfold diagnostics
  congr 1
  funext event
  cases event <;> rfl

/-- The reports of a line are those on the way and, if wanted, one for each open group. -/
theorem ScannedLine.diagnostics_eq (line : Nat) (text : Text) (report : Bool) :
    (ofText line text report).diagnostics = ((Scan.start line).run text).reports ++
      if report then ((Scan.start line).run text).unclosed else [] := by
  have closing := ScanEvent.filterMap_closed
  have reporting : ∀ found : List Diagnostic,
      (found.map ScanEvent.reported).filterMap ScanEvent.report? = found := by
    intro found
    simp [List.filterMap_map, Function.comp_def, ScanEvent.report?]
  rw [diagnostics_eq_filterMap]
  cases report with
  | false => simp [ofText, Scan.closeAll_eq, Scan.reports, closing]
  | true => simp [ofText, Scan.closeAll_eq, Scan.reportUnclosed, Scan.reports, closing, reporting]

end LineTree
