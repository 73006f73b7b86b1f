import LineTree.Log
import LineTree.Proofs.Findings

/-!
# The notices of a scan

A scan speaks of every token at the moment of closing it and of every report at the moment of making
it. Closing a token is a matter of trace, a report one of debugging, so the level of a notice tells
what it is about. Read level by level, the notices of a line are its tree in post-order and its
reports. Main statements: `ScannedLine.closed_events`, `ScannedLine.notices_by_level`.
-/
namespace LineTree

open Token OpenToken

namespace Notice

/-- At the level of traces a scan speaks of the tokens that it closes. -/
theorem filter_trace (events : List ScanEvent) :
    (events.map scanned).filter (·.level = .trace) =
      (events.filterMap ScanEvent.closed?).map fun u => scanned (.closed u) := by
  induction events with
  | nil => rfl
  | cons event later ih =>
    cases event with
    | closed u =>
      rw [List.map_cons, List.filter_cons_of_pos (by simp [level]), ih]
      rfl
    | reported d =>
      rw [List.map_cons, List.filter_cons_of_neg (by simp [level]), ih]
      rfl

/-- At the level of debugging a scan speaks of the reports that it makes. -/
theorem filter_debug (events : List ScanEvent) :
    (events.map scanned).filter (·.level = .debug) =
      (events.filterMap ScanEvent.report?).map fun d => scanned (.reported d) := by
  induction events with
  | nil => rfl
  | cons event later ih =>
    cases event with
    | closed u =>
      rw [List.map_cons, List.filter_cons_of_neg (by simp [level]), ih]
      rfl
    | reported d =>
      rw [List.map_cons, List.filter_cons_of_pos (by simp [level]), ih]
      rfl

theorem message_closed (u : Token) : (scanned (.closed u)).message =
    "line ".toList ++ writeNat u.line ++ ": ".toList ++ u.kind.name.toList ++ ' ' :: u.literal.quote
      ++ " at ".toList ++ writeNat u.start := rfl

theorem message_reported (d : Diagnostic) : (scanned (.reported d)).message =
    "line ".toList ++ writeNat (d.line + 1) ++ ": ".toList ++ d.message := rfl

theorem level_scanned (event : ScanEvent) :
    (scanned event).level = .trace ∨ (scanned event).level = .debug := by
  cases event <;> simp [level]

end Notice

namespace ScannedLine

variable {line : Nat} {text : Text} {report : Bool}

/-- The tokens that are closed on the way and at the end of the line are those of its tree, in
post-order. -/
theorem closed_events (line : Nat) (text : Text) (report : Bool) :
    (ofText line text report).events.filterMap ScanEvent.closed? =
      postorderAll (ofText line text report).tree.children := by
  have number := (Scan.invariant_end line text).line_eq
  have ending : ∀ tokens : List Token,
      (tokens.map ScanEvent.closed).filterMap ScanEvent.closed? = tokens := by
    intro tokens
    simp [List.filterMap_map, Function.comp_def, ScanEvent.closed?]
  have reporting : ∀ found : List Diagnostic,
      (found.map ScanEvent.reported).filterMap ScanEvent.closed? = [] := by
    intro found
    simp [List.filterMap_map, Function.comp_def, ScanEvent.closed?]
  rw [postorder_tree, Scan.closed]
  cases report with
  | false => simp [ofText, Scan.closeAll_eq, ending, number]
  | true =>
    simp only [ofText, Scan.closeAll_eq, Scan.reportUnclosed, if_true, List.reverse_append,
      List.reverse_reverse, List.filterMap_append, reporting, ending, number, List.append_nil]

/-- The reports of a line bear its number. -/
theorem line_of_mem_diagnostics {d : Diagnostic}
    (member : d ∈ (ofText line text report).diagnostics) : d.line = line := by
  obtain ⟨u, listed, -, number, -⟩ := exists_token_of_report member
  exact number.trans ((grammar_ofLine line text).conforms u listed).line_eq

/-- What a scan makes known about a line. Its traces are one for each token of the tree but the
root, in post-order, with the line, the kind, the literal and the start of the token in the tree. Its
other notices are for debugging, one for each report, in order. -/
theorem notices_by_level (line : Nat) (text : Text) (report : Bool) :
    let l := ofText line text report
    let closed := postorderAll l.tree.children
    let traces := l.notices.filter (·.level = .trace)
    let debugging := l.notices.filter (·.level = .debug)
    closed.Perm l.tree.descendants.tail ∧
    traces = closed.map (fun u => .scanned (.closed u)) ∧
    traces.map Notice.message = closed.map (fun u =>
      "line ".toList ++ writeNat line ++ ": ".toList ++ u.kind.name.toList ++ ' ' :: u.literal.quote
        ++ " at ".toList ++ writeNat u.start) ∧
    debugging = l.diagnostics.map (fun d => .scanned (.reported d)) ∧
    debugging.map Notice.message = l.diagnostics.map (fun d =>
      "line ".toList ++ writeNat (line + 1) ++ ": ".toList ++ d.message) ∧
    ∀ n ∈ l.notices, n.level = .trace ∨ n.level = .debug := by
  intro l closed traces debugging
  have traced : traces = closed.map fun u => .scanned (.closed u) :=
    (Notice.filter_trace l.events).trans (congrArg _ (closed_events line text report))
  have debugged : debugging = l.diagnostics.map fun d => .scanned (.reported d) :=
    (Notice.filter_debug l.events).trans (congrArg _ (diagnostics_eq_filterMap l).symm)
  refine ⟨?_, traced, ?_, debugged, ?_, fun n member => ?_⟩
  · rw [descendants_eq_listing, listing_eq, List.tail_cons]
    exact postorderAll_perm l.tree.children
  · rw [traced, List.map_map]
    refine List.map_congr_left fun u member => ?_
    have listed : u ∈ l.tree.listing :=
      mem_listing_iff.2 (Or.inr (mem_postorderAll_iff.1 member))
    rw [Function.comp_apply, Notice.message_closed, (conforms listed).line_eq]
  · rw [debugged, List.map_map]
    refine List.map_congr_left fun d member => ?_
    rw [Function.comp_apply, Notice.message_reported, line_of_mem_diagnostics member]
  · obtain ⟨event, -, rfl⟩ := List.mem_map.1 member
    exact Notice.level_scanned event

end ScannedLine
end LineTree
