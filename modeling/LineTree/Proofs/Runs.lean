import LineTree.Document
import LineTree.Proofs.Finish

/-!
# Lines shared among workers

A document is scanned in runs of lines, one run for each worker. Whatever the number of workers, the
runs are the lines in order, none is empty, and each is scanned under the true numbers of its lines.
Main statements: `getElem?_runsOf`, `Document.lines_ofText`, `Document.ofText_sequential`.
-/
namespace LineTree

variable {α : Type}

/-- Each run begins where the runs in front of it end, and is full if enough items are left. -/
theorem getElem?_runsOf (size k : Nat) (l : List α) :
    (runsOf size l)[k]? = if k * (size + 1) < l.length
      then some ((l.drop (k * (size + 1))).take (size + 1)) else none := by
  fun_induction runsOf size l generalizing k with
  | case1 => simp
  | case2 a rest ih =>
    cases k with
    | zero => simp
    | succ k =>
      have position : (k + 1) * (size + 1) = (k * (size + 1) + size) + 1 := by
        rw [Nat.succ_mul, Nat.add_assoc]
      have left : k * (size + 1) < (rest.drop size).length ↔
          (k + 1) * (size + 1) < (a :: rest).length := by
        rw [List.length_drop, List.length_cons, position]
        omega
      have behind : List.drop ((k + 1) * (size + 1)) (a :: rest) =
          (rest.drop size).drop (k * (size + 1)) := by
        rw [position, List.drop_succ_cons, List.drop_drop, Nat.add_comm]
      rw [List.getElem?_cons_succ, ih, behind]
      simp only [left]

theorem length_runsOf (size : Nat) (l : List α) :
    (runsOf size l).length = (l.length + size) / (size + 1) := by
  fun_induction runsOf size l with
  | case1 => exact (Nat.div_eq_of_lt (by simp)).symm
  | case2 a rest ih =>
    rw [List.length_cons, ih, List.length_drop, List.length_cons]
    by_cases few : rest.length ≤ size
    · have none : (rest.length - size + size) / (size + 1) = 0 := by
        rw [Nat.sub_eq_zero_of_le few, Nat.zero_add]
        exact Nat.div_eq_of_lt (Nat.lt_succ_self size)
      have one : rest.length + 1 + size = rest.length + (size + 1) := by omega
      rw [none, one, Nat.add_div_right _ (Nat.succ_pos size), Nat.div_eq_of_lt (by omega)]
    · have again : rest.length + 1 + size = rest.length - size + size + (size + 1) := by omega
      rw [again, Nat.add_div_right _ (Nat.succ_pos size)]

namespace ScannedLine

/-- Reporting open brackets or not makes no difference to the tree. -/
theorem tree_eq_ofLine (line : Nat) (text : Text) (report : Bool) :
    (ofText line text report).tree = Token.ofLine line text := by
  rw [tree_eq]
  exact (tree_eq line text true).symm

theorem rebuild_tree (line : Nat) (text : Text) (report : Bool) :
    (ofText line text report).tree.rebuild = text := by
  rw [(wellPlaced line text report).rebuild_eq_literal]
  exact (isRoot line text report).literal_eq

end ScannedLine

namespace Document

theorem scanRun_append (report : Bool) (first : Nat) (a b : List Text) :
    scanRun report first (a ++ b) =
      scanRun report first a ++ scanRun report (first + a.length) b := by
  simp [scanRun, List.zipIdx_append]

/-- Scanning the runs one after the other, each under the number of its first line, is scanning the
lines. -/
theorem flatMap_scanRun (report : Bool) (size k : Nat) (lines : List Text) :
    ((runsOf size lines).zipIdx k).flatMap
      (fun (run, index) => scanRun report (index * (size + 1)) run) =
      scanRun report (k * (size + 1)) lines := by
  fun_induction runsOf size lines generalizing k with
  | case1 => rfl
  | case2 a rest ih =>
    have whole : scanRun report (k * (size + 1)) (a :: rest) =
        scanRun report (k * (size + 1)) (a :: rest.take size) ++
          scanRun report (k * (size + 1) + (a :: rest.take size).length) (rest.drop size) := by
      rw [← scanRun_append, List.cons_append, List.take_append_drop]
    rw [List.zipIdx_cons, List.flatMap_cons, ih, whole]
    -- A run that is not full is the last one, so the number behind it does not matter.
    by_cases few : rest.length ≤ size
    · rw [List.drop_eq_nil_of_le few]
      rfl
    · have next : k * (size + 1) + (a :: rest.take size).length = (k + 1) * (size + 1) := by
        rw [List.length_cons, List.length_take, Nat.succ_mul]
        omega
      rw [next]

theorem lines_pos (text : Text) : 0 < (Text.lines text).length := by
  simp [Text.lines, Text.split]

theorem runSize_pos {workers : Nat} {lines : List Text} (workers_pos : 0 < workers)
    (nonempty : 0 < lines.length) : 0 < (lines.length + workers - 1) / workers :=
  Nat.div_pos (by omega) workers_pos

/-- Workers do not change what is scanned. -/
theorem lines_ofText (settings : Settings) (text : Text) :
    (ofText settings text).lines = scanRun settings.reportUnclosed 0 (Text.lines text) := by
  simp only [ofText]
  split
  · rfl
  · next several =>
    have size_pos := runSize_pos (settings.workersFor_pos (Text.lines text).length)
      (lines_pos text)
    generalize settings.workersFor (Text.lines text).length = workers at several size_pos ⊢
    rw [runsFor, List.flatMap_map, List.flatMap_map]
    have runs := flatMap_scanRun settings.reportUnclosed
      ((List.length (Text.lines text) + workers - 1) / workers - 1) 0 (Text.lines text)
    rw [Nat.sub_add_cancel size_pos, Nat.zero_mul] at runs
    exact runs

/-- Lines shared out among workers. Each run is the next part of the lines, with the place of its
first line in front, and there is no run without a line and no run without a worker. -/
structure SharedOut (workers : Nat) (lines : List Text) : Prop where
  size_pos : 1 ≤ (lines.length + workers - 1) / workers
  few : (runsFor workers lines).length ≤ workers
  covering : (runsFor workers lines).flatMap Prod.snd = lines
  placed : ∀ k first run, (runsFor workers lines)[k]? = some (first, run) →
    run ≠ [] ∧ first = k * ((lines.length + workers - 1) / workers) ∧
      run = (lines.drop first).take ((lines.length + workers - 1) / workers)

theorem runsFor_eq {workers size : Nat} {lines : List Text}
    (same : (lines.length + workers - 1) / workers = size + 1) :
    runsFor workers lines =
      (runsOf size lines).zipIdx.map fun (run, index) => (index * (size + 1), run) := by
  rw [runsFor, same, Nat.add_sub_cancel]

/-- Any number of lines can be shared out among any number of workers. -/
theorem sharedOut {workers : Nat} {lines : List Text} (workers_pos : 0 < workers)
    (nonempty : 0 < lines.length) : SharedOut workers lines := by
  have size_pos := runSize_pos workers_pos nonempty
  obtain ⟨size, same⟩ : ∃ size, (lines.length + workers - 1) / workers = size + 1 :=
    ⟨_, (Nat.sub_add_cancel size_pos).symm⟩
  have enough : lines.length ≤ (size + 1) * workers := by
    have below := Nat.lt_div_mul_add workers_pos (a := lines.length + workers - 1)
    rw [same] at below
    omega
  refine ⟨size_pos, ?_, ?_, fun k first run found => ?_⟩
  · have bound : lines.length + size < (workers + 1) * (size + 1) := by
      rw [Nat.add_one_mul, Nat.mul_comm]
      omega
    rw [runsFor_eq same, List.length_map, List.length_zipIdx, length_runsOf]
    exact Nat.le_of_lt_succ ((Nat.div_lt_iff_lt_mul (Nat.succ_pos size)).2 bound)
  · have runs : (runsFor workers lines).map Prod.snd = runsOf size lines := by
      rw [runsFor_eq same, List.map_map]
      exact List.zipIdx_map_fst 0 _
    rw [List.flatMap_def, runs, flatten_runsOf]
  · rw [runsFor_eq same, List.getElem?_map, List.getElem?_zipIdx, getElem?_runsOf] at found
    rw [same]
    split at found
    · next inside =>
      obtain ⟨rfl, rfl⟩ : k * (size + 1) = first ∧
          (lines.drop (k * (size + 1))).take (size + 1) = run := by simpa using found
      refine ⟨fun empty => ?_, rfl, rfl⟩
      have length := congrArg List.length empty
      rw [List.length_take, List.length_drop, List.length_nil] at length
      omega
    · cases found

theorem trees_ofText (settings : Settings) (text : Text) :
    (ofText settings text).trees = Token.ofLines text := by
  rw [trees, lines_ofText, scanRun, Token.ofLines, List.map_map]
  congr 1
  funext ⟨piece, line⟩
  exact ScannedLine.tree_eq_ofLine line piece settings.reportUnclosed

/-- Whatever the settings, a document is scanned line by line: it has a scanned line for each piece
between newlines, under its number, the reports are those of the lines in order, and the text can be
rebuilt. If the lines are shared out among workers, each run is the next part of the lines under
the number of its first line. -/
theorem ofText_sequential (settings : Settings) (text : Text) :
    let lines := Text.lines text
    let d := ofText settings text
    lines.length = text.count '\n' + 1 ∧
    (∀ piece ∈ lines, '\n' ∉ piece) ∧
    d.lines.length = lines.length ∧
    (∀ i piece, lines[i]? = some piece →
      d.lines[i]? = some (ScannedLine.ofText i piece settings.reportUnclosed)) ∧
    d.diagnostics = (lines.zipIdx.map fun (piece, i) =>
      (ScannedLine.ofText i piece settings.reportUnclosed).diagnostics).flatten ∧
    d.trees = Token.ofLines text ∧
    Text.join '\n' (d.trees.map Token.rebuild) = text ∧
    SharedOut (settings.workersFor lines.length) lines := by
  intro lines d
  have scanned : d.lines = scanRun settings.reportUnclosed 0 lines := lines_ofText settings text
  have trees : d.trees = Token.ofLines text := trees_ofText settings text
  refine ⟨Text.length_split '\n' text, fun _ => Text.notMem_of_mem_split, ?_,
    fun i piece found => ?_, ?_, trees, ?_, sharedOut (settings.workersFor_pos _) (lines_pos text)⟩
  · rw [scanned, scanRun, List.length_map, List.length_zipIdx]
  · rw [scanned, scanRun, List.getElem?_map, List.getElem?_zipIdx, found]
    simp
  · rw [diagnostics, scanned, scanRun, List.flatMap_map, List.flatMap_def]
  · have rebuilt : d.trees.map Token.rebuild = lines := by
      rw [trees, Token.ofLines, List.map_map]
      refine Eq.trans ?_ (List.zipIdx_map_fst 0 lines)
      congr 1
      funext ⟨piece, line⟩
      exact ScannedLine.rebuild_tree line piece true
    rw [rebuilt]
    exact Text.join_split '\n' text

end Document
end LineTree
