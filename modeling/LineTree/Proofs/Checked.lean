import Mathlib.Data.List.Sort
import LineTree.Proofs.Findings

/-!
# Checked documents

The findings about a document are those about its lines, one line after the other. Since they stand
at different places, sorting them by place leaves no choice. Nothing but its number ties a line to
the document. Main statements: `Token.ofLine_renumber`, `Document.findings_ofText`.
-/
namespace LineTree

variable {line number : Nat} {text : Text} {report : Bool}

namespace Token

/-- The number of a line is written into its tokens and has no other effect on them. -/
theorem ofLine_renumber (line : Nat) (text : Text) :
    Token.ofLine line text = (Token.ofLine 0 text).rebased line 0 := by
  have root : ScannedLine.IsRoot 0 text (Token.ofLine 0 text) := ScannedLine.isRoot 0 text true
  have grammar := (grammar_ofLine 0 text).rebased line
  rw [root.start_eq] at grammar
  have moved : ((Token.ofLine 0 text).rebased line 0).Grammatical line := by
    refine ⟨⟨?_, rebased_line, ?_, rfl, ?_⟩, ?_⟩
    · rw [rebased_kind, root.kind_eq]
    · rw [rebased_start, root.start_eq]
    · rw [rebased_value, root.value_eq]
    · rwa [rebased_literal]
  have whole := moved.ofLine_eq
  rwa [rebased_literal, root.literal_eq] at whole

theorem edgesAll_rebased (number origin : Nat) (parent : Token) (tokens : List Token)
    (inner : ∀ c ∈ tokens, (c.rebased number origin).edges =
      c.edges.map (Prod.map (rebased number origin) (rebased number origin))) :
    edgesAll (parent.rebased number origin) (tokens.map (rebased number origin)) =
      (edgesAll parent tokens).map (Prod.map (rebased number origin) (rebased number origin)) := by
  induction tokens with
  | nil => rfl
  | cons c later ih =>
    rw [List.map_cons, edgesAll_cons, edgesAll_cons, inner c (by simp),
      ih fun d member => inner d (by simp [member])]
    simp

theorem edges_rebased (number origin : Nat) (t : Token) : (t.rebased number origin).edges =
    t.edges.map (Prod.map (rebased number origin) (rebased number origin)) := by
  induction t using Token.induction with
  | node line start literal kind children value ih =>
    rw [edges_eq, edges_eq, rebased_children]
    exact edgesAll_rebased number origin _ children ih

variable {t : Token}

theorem stray?_rebased {origin : Nat} : (t.rebased number origin).stray? = t.stray? := by
  rw [stray?, stray?, rebased_kind, rebased_literal]

theorem stop_renumbered : (t.rebased number 0).stop = t.stop := by
  simp [Token.stop]

theorem unclosed?_renumbered : (t.rebased number 0).unclosed? = t.unclosed? := by
  have last : (t.rebased number 0).children.getLast?.map stop = t.children.getLast?.map stop := by
    rw [rebased_children, List.getLast?_map, Option.map_map]
    congr 1
    funext c
    exact stop_renumbered
  rw [unclosed?, unclosed?, last, stop_renumbered, rebased_kind]

theorem finding?_renumbered (report : Bool) (number : Nat) (e : Token × Token) :
    finding? report (Prod.map (rebased number 0) (rebased number 0) e) =
      (finding? report e).map fun d => { d with line := number } := by
  obtain ⟨p, t⟩ := e
  have plain : Diagnostic.unrecognized (t.rebased number 0) =
      { Diagnostic.unrecognized t with line := number } := by
    simp [Diagnostic.unrecognized, stop_renumbered]
  unfold finding?
  simp only [Prod.map_apply, rebased_kind]
  cases t.kind with
  | unresolved =>
    simp only [mismatch?, stray?_rebased, rebased_line, rebased_start, rebased_kind, plain]
    cases t.stray? <;> rfl
  | brackets b =>
    simp only [unclosedGroup?, unclosed?_renumbered, rebased_line, rebased_start]
    cases report <;> cases t.unclosed? <;> rfl
  | _ => rfl

/-- The findings about a line move along with it. -/
theorem findings_renumbered (report : Bool) (number : Nat) (t : Token) :
    (t.rebased number 0).findings report =
      (t.findings report).map fun d => { d with line := number } := by
  rw [findings, findings, edges_rebased, List.filterMap_map, List.map_filterMap]
  exact List.filterMap_congr fun e _ => finding?_renumbered report number e

end Token

theorem Diagnostic.placedBefore_iff {a b : Diagnostic} : a.placedBefore b ↔
    a.line < b.line ∨ a.line = b.line ∧ a.start ≤ b.start := by
  simp [Diagnostic.placedBefore]

/-- Where no two diagnostics stand at one place, sorting leaves no choice. -/
theorem mergeSort_eq_of_precedes {found ordered : List Diagnostic} (same : found.Perm ordered)
    (apart : ordered.Pairwise Diagnostic.Precedes) :
    found.mergeSort Diagnostic.placedBefore = ordered := by
  have transitive (a b c : Diagnostic) (first : a.placedBefore b) (second : b.placedBefore c) :
      a.placedBefore c := by
    rw [Diagnostic.placedBefore_iff] at first second ⊢
    omega
  have total (a b : Diagnostic) : (a.placedBefore b || b.placedBefore a) = true := by
    rw [Bool.or_eq_true, Diagnostic.placedBefore_iff, Diagnostic.placedBefore_iff]
    omega
  have sorted := List.pairwise_mergeSort transitive total found
  have kept := (List.mergeSort_perm found Diagnostic.placedBefore).trans same
  have before : ordered.Pairwise fun a b => a.placedBefore b = true := apart.imp fun precedes => by
    rw [Diagnostic.Precedes] at precedes
    rw [Diagnostic.placedBefore_iff]
    omega
  have symmetric : Std.Symm fun a b : Diagnostic => a.line = b.line → a.start = b.start → a = b :=
    ⟨fun a b h line start => (h line.symm start.symm).symm⟩
  have distinct : ordered.Pairwise fun a b => a.line = b.line → a.start = b.start → a = b :=
    apart.imp fun precedes line start => by
      rw [Diagnostic.Precedes] at precedes
      omega
  -- Two lists in one order are equal if the order tells their members apart.
  refine kept.eq_of_pairwise (fun a b left right first second => ?_) sorted before
  rw [Diagnostic.placedBefore_iff] at first second
  exact distinct.forall_of_forall (fun _ _ _ _ => rfl) (kept.mem_iff.1 left) right
    (by omega) (by omega)

namespace Document

/-- The findings about the lines of a text, one line after the other. -/
theorem ordered_flatMap (lines : List Text) (report : Bool) :
    (lines.zipIdx.flatMap fun (piece, i) => (Token.ofLine i piece).findings report).Pairwise
      Diagnostic.Precedes := by
  have placed (piece : Text) (i : Nat) {d : Diagnostic}
      (member : d ∈ (Token.ofLine i piece).findings report) : d.line = i :=
    ((Token.grammar_ofLine i piece).quotes member).1
  refine List.pairwise_flatMap.2 ⟨fun (piece, i) _ => ?_, ?_⟩
  · refine (Token.grammar_ofLine i piece).findings_ordered.imp_of_mem
      fun left right before => Or.inr ⟨?_, before⟩
    rw [placed piece i left, placed piece i right]
  · have numbers : lines.zipIdx.Pairwise fun a b => a.2 < b.2 := by
      rw [← List.pairwise_map, List.zipIdx_map_snd]
      exact List.pairwise_lt_range'
    refine numbers.imp fun {a b} before d left d' right => Or.inl ?_
    rwa [placed a.1 a.2 left, placed b.1 b.2 right]

theorem findings_perm (settings : Settings) (text : Text) :
    ((ofText settings text).lines.flatMap (·.findings)).Perm
      ((Text.lines text).zipIdx.flatMap fun (piece, i) =>
        (Token.ofLine i piece).findings settings.reportUnclosed) := by
  rw [lines_ofText, scanRun, List.flatMap_map]
  exact List.Perm.flatMap_left _ fun numbered _ =>
    ScannedLine.findings_perm numbered.2 numbered.1 settings.reportUnclosed

theorem findings_eq (settings : Settings) (text : Text) : (ofText settings text).findings =
    (Text.lines text).zipIdx.flatMap fun (piece, i) =>
      (Token.ofLine i piece).findings settings.reportUnclosed :=
  mergeSort_eq_of_precedes (findings_perm settings text) (ordered_flatMap _ _)

theorem lines_of_single {piece : Text} (single : '\n' ∉ piece) : Text.lines piece = [piece] := by
  have length := Text.length_split '\n' piece
  have joined := Text.join_split '\n' piece
  rw [List.count_eq_zero.2 single] at length
  obtain ⟨only, same⟩ := List.length_eq_one_iff.1 length
  rw [same] at joined
  rw [Text.lines, same, ← joined]
  simp [Text.join]

theorem findings_of_line {settings : Settings} {piece : Text} (single : '\n' ∉ piece) :
    (ofText settings piece).findings = (Token.ofLine 0 piece).findings settings.reportUnclosed := by
  rw [findings_eq, lines_of_single single]
  simp

/-- Reports carry the number of their line. -/
theorem line_of_report {i : Nat} {piece : Text} {r : Diagnostic}
    (member : r ∈ (ScannedLine.ofText i piece report).diagnostics) : r.line = i := by
  obtain ⟨u, listed, -, line_eq, -⟩ := ScannedLine.exists_token_of_report member
  exact line_eq.trans ((Token.grammar_ofLine i piece).conforms u listed).line_eq

/-- Reports about other lines stand at no place in this one. -/
theorem reported_eq (settings : Settings) (text : Text) {i : Nat} {piece : Text}
    (listed : (piece, i) ∈ (Text.lines text).zipIdx) {u : Diagnostic} (number : u.line = i) :
    ((ofText settings text).diagnostics.any fun r => r.line = u.line && r.start = u.start) =
      (ScannedLine.ofText i piece settings.reportUnclosed).diagnostics.any fun r =>
        r.line = u.line && r.start = u.start := by
  have lines : (ofText settings text).diagnostics = (Text.lines text).zipIdx.flatMap fun (piece, i) =>
      (ScannedLine.ofText i piece settings.reportUnclosed).diagnostics := by
    rw [diagnostics, lines_ofText, scanRun, List.flatMap_map]
  rw [lines, Bool.eq_iff_iff, List.any_eq_true, List.any_eq_true]
  constructor
  · rintro ⟨r, member, place⟩
    obtain ⟨⟨piece', j⟩, listed', inside⟩ := List.mem_flatMap.1 member
    have here : r.line = u.line := (by simpa using place : _ ∧ _).1
    obtain rfl : j = i := (line_of_report inside).symm.trans (here.trans number)
    have own : (Text.lines text)[j]? = some piece := List.mem_zipIdx_iff_getElem?.1 listed
    have other : (Text.lines text)[j]? = some piece' := List.mem_zipIdx_iff_getElem?.1 listed'
    obtain rfl : piece' = piece := Option.some.inj (other.symm.trans own)
    exact ⟨r, inside, place⟩
  · rintro ⟨r, member, place⟩
    exact ⟨r, List.mem_flatMap.2 ⟨(piece, i), listed, member⟩, place⟩

/-- The errors about unresolved tokens can as well be filtered by the reports about all lines. -/
theorem findings_eq_filtered (settings : Settings) (text : Text) :
    let d := ofText settings text
    d.findings = (d.diagnostics ++ (d.trees.flatMap Token.unrecognized).filter fun u =>
      !(d.diagnostics.any fun r => r.line = u.line && r.start = u.start)).mergeSort
        Diagnostic.placedBefore := by
  intro d
  have scanned : d.lines = scanRun settings.reportUnclosed 0 (Text.lines text) :=
    lines_ofText settings text
  have others : ((d.trees.flatMap Token.unrecognized).filter fun u =>
      !(d.diagnostics.any fun r => r.line = u.line && r.start = u.start)) =
        d.lines.flatMap fun l => l.tree.unrecognized.filter fun u =>
          !(l.diagnostics.any fun r => r.line = u.line && r.start = u.start) := by
    rw [trees, List.flatMap_map, List.filter_flatMap]
    refine List.flatMap_congr fun l member => List.filter_congr fun u error => ?_
    rw [scanned, scanRun, List.mem_map] at member
    obtain ⟨⟨piece, i⟩, listed, rfl⟩ := member
    obtain ⟨v, inside, rfl⟩ := List.mem_map.1 error
    have unresolved := List.mem_filter.1 inside
    have number : v.line = i :=
      (ScannedLine.conforms (Token.mem_descendants_iff.1 unresolved.1)).line_eq
    exact congrArg not (reported_eq settings text listed number)
  have parts : (d.diagnostics ++ d.lines.flatMap fun l => l.tree.unrecognized.filter fun u =>
      !(l.diagnostics.any fun r => r.line = u.line && r.start = u.start)).Perm
        (d.lines.flatMap (·.findings)) := List.flatMap_append_perm _ _ _
  rw [others, mergeSort_eq_of_precedes (parts.trans (findings_perm settings text))
    (ordered_flatMap _ _)]
  exact findings_eq settings text

/-- A check finds an error for each unresolved token and, if wanted, a warning for each open group,
each at its place and in order, and says of each line what it says of the line alone. -/
theorem findings_ofText (settings : Settings) (text : Text) :
    let lines := Text.lines text
    let d := ofText settings text
    let found := d.findings
    (found = (d.diagnostics ++ (d.trees.flatMap Token.unrecognized).filter fun u =>
      !(d.diagnostics.any fun r => r.line = u.line && r.start = u.start)).mergeSort
        Diagnostic.placedBefore) ∧
    found.Pairwise Diagnostic.Precedes ∧
    found = (lines.zipIdx.flatMap fun (piece, i) =>
      (Token.ofLine i piece).findings settings.reportUnclosed) ∧
    (∀ f ∈ found, ∃ piece, lines[f.line]? = some piece ∧ f.Quotes piece) ∧
    found = lines.zipIdx.flatMap fun (piece, i) =>
      (ofText settings piece).findings.map fun f => { f with line := i } := by
  intro lines d found
  have same : found = lines.zipIdx.flatMap fun (piece, i) =>
      (Token.ofLine i piece).findings settings.reportUnclosed := findings_eq settings text
  refine ⟨findings_eq_filtered settings text, ?_, same, fun f member => ?_, ?_⟩
  · rw [same]
    exact ordered_flatMap lines settings.reportUnclosed
  · rw [same, List.mem_flatMap] at member
    obtain ⟨⟨piece, i⟩, listed, inside⟩ := member
    obtain ⟨number, quotes⟩ := (Token.grammar_ofLine i piece).quotes inside
    refine ⟨piece, ?_, quotes⟩
    rw [number]
    exact List.mem_zipIdx_iff_getElem?.1 listed
  · refine same.trans (List.flatMap_congr fun (piece, i) listed => ?_)
    have single : '\n' ∉ piece := Text.notMem_of_mem_split (List.fst_mem_of_mem_zipIdx listed)
    dsimp only
    rw [findings_of_line single, Token.ofLine_renumber, Token.findings_renumbered]

end Document
end LineTree
