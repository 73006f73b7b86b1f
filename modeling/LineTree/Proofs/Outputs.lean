import LineTree.Program
import LineTree.Proofs.Checked

/-!
# Settings and outputs

Trees do not depend on the settings, so neither does what is written about them. A check finds the
same errors under all settings, and one setting decides whether it finds warnings as well: those
about open groups, which keep no error away and leave the order of the errors alone. It fails
exactly for unresolved tokens. Main statements: `Document.findings_silent`,
`Document.exists_error_iff`, `Output.settings_change_only_warnings`.
-/
namespace LineTree

namespace Diagnostic

/-- The diagnostic is the warning about an open group, word for word. -/
def isUnclosed (d : Diagnostic) : Bool :=
  Bracket.all.any fun b => d = .unclosed d.line d.start b

theorem isUnclosed_iff {d : Diagnostic} :
    d.isUnclosed ↔ ∃ line offset bracket, d = .unclosed line offset bracket := by
  rw [isUnclosed, List.any_eq_true]
  constructor
  · rintro ⟨b, -, same⟩
    exact ⟨d.line, d.start, b, of_decide_eq_true same⟩
  · rintro ⟨line, offset, b, rfl⟩
    exact ⟨b, by cases b <;> decide, decide_eq_true rfl⟩

theorem isUnclosed_unclosed (line offset : Nat) (b : Bracket) :
    (unclosed line offset b).isUnclosed = true := isUnclosed_iff.2 ⟨line, offset, b, rfl⟩

theorem isUnclosed_eq_false_of_isError {d : Diagnostic} (error : d.isError) :
    d.isUnclosed = false := by
  rw [Bool.eq_false_iff]
  intro warning
  obtain ⟨line, offset, b, rfl⟩ := isUnclosed_iff.1 warning
  cases error

/-- The diagnostic as a check writes it, with its line of the source. -/
def shown (source : Text) (d : Diagnostic) : Piece :=
  ⟨.plain, d.snippet ((Text.lines source)[d.line]?.getD []) ++ ['\n']⟩

end Diagnostic

namespace Token

variable {t : Token} {e : Token × Token} {report : Bool} {d : Diagnostic}

theorem isUnclosed_of_unclosedGroup? (found : unclosedGroup? t = some d) : d.isUnclosed := by
  obtain ⟨b, -, rfl⟩ := Option.map_eq_some_iff.1 found
  exact Diagnostic.isUnclosed_unclosed _ _ b

/-- What is said about an unresolved token is an error, and warnings do not matter to it. About any
other token there is only the warning that it is an open group. -/
theorem finding?_cases (e : Token × Token) :
    (e.2.kind = .unresolved ∧ unclosedGroup? e.2 = none ∧
      ∃ d : Diagnostic, d.isError ∧ ∀ report, finding? report e = some d) ∨
    (e.2.kind ≠ .unresolved ∧
      ∀ report, finding? report e = if report then unclosedGroup? e.2 else none) := by
  cases kind : e.2.kind with
  | unresolved =>
    refine Or.inl ⟨rfl, unclosedGroup?_eq_none (by rw [kind]; rfl),
      (mismatch? e).getD (.unrecognized e.2), ?_, fun report => by rw [finding?, kind]⟩
    unfold mismatch?
    cases e.2.stray? <;> rfl
  | brackets b => exact Or.inr ⟨by simp, fun report => by rw [finding?, kind]⟩
  | _ =>
    refine Or.inr ⟨by simp, fun report => ?_⟩
    rw [unclosedGroup?_eq_none (by rw [kind]; rfl), finding?, kind, ite_self]

/-- Without warnings the rest is found, in the same order. -/
theorem findings_silent (t : Token) :
    t.findings false = (t.findings true).filter fun d => !d.isUnclosed := by
  rw [findings, findings, List.filter_filterMap]
  refine List.filterMap_congr fun e _ => ?_
  obtain ⟨-, -, d, error, found⟩ | ⟨-, found⟩ := finding?_cases e
  · simp [found, Option.filter, Diagnostic.isUnclosed_eq_false_of_isError error]
  · rw [found, found]
    cases group : unclosedGroup? e.2 with
    | none => rfl
    | some d => simp [Option.filter, isUnclosed_of_unclosedGroup? group]

/-- The warnings among the findings are those about open groups. -/
theorem findings_unclosed (root : t.kind.bracket? = none) :
    (t.findings true).filter (·.isUnclosed) = t.unclosedGroups := by
  rw [unclosedGroups_eq root, findings, List.filter_filterMap]
  refine List.filterMap_congr fun e _ => ?_
  obtain ⟨-, single, d, error, found⟩ | ⟨-, found⟩ := finding?_cases e
  · simp [found, single, Option.filter, Diagnostic.isUnclosed_eq_false_of_isError error]
  · rw [found]
    cases group : unclosedGroup? e.2 with
    | none => rfl
    | some d => simp [Option.filter, isUnclosed_of_unclosedGroup? group]

/-- An error is found exactly if a token is unresolved. -/
theorem exists_error_iff (report : Bool) (root : t.kind ≠ .unresolved) :
    (∃ d ∈ t.findings report, d.isError) ↔ ∃ u ∈ t.descendants, u.kind = .unresolved := by
  constructor
  · rintro ⟨d, member, error⟩
    obtain ⟨⟨p, u⟩, edge, found⟩ := List.mem_filterMap.1 member
    refine ⟨u, mem_descendants_iff.2 (mem_listing_of_edge edge), ?_⟩
    obtain ⟨kind, -⟩ | ⟨-, silent⟩ := finding?_cases (p, u)
    · exact kind
    · rw [silent] at found
      split at found
      · have warning := isUnclosed_of_unclosedGroup? found
        rw [Diagnostic.isUnclosed_eq_false_of_isError error] at warning
        cases warning
      · cases found
  · rintro ⟨u, listed, kind⟩
    rw [descendants_eq_edges, List.mem_cons] at listed
    obtain rfl | inner := listed
    · exact (root kind).elim
    obtain ⟨e, edge, rfl⟩ := List.mem_map.1 inner
    obtain ⟨-, -, d, error, found⟩ | ⟨resolved, -⟩ := finding?_cases e
    · exact ⟨d, List.mem_filterMap.2 ⟨e, edge, found report⟩, error⟩
    · exact (resolved kind).elim

end Token

namespace Document

variable {settings settings' : Settings}

/-- With the setting off a check finds what it finds with the setting on, but for the warnings. -/
theorem findings_silent (text : Text) (wanted : settings.reportUnclosed = true)
    (unwanted : settings'.reportUnclosed = false) : (ofText settings' text).findings =
      (ofText settings text).findings.filter fun f => !f.isUnclosed := by
  rw [findings_eq, findings_eq, wanted, unwanted, List.filter_flatMap]
  exact List.flatMap_congr fun numbered _ =>
    Token.findings_silent (Token.ofLine numbered.2 numbered.1)

/-- The warnings of a check are about the open groups of all lines, in order. -/
theorem findings_unclosed (text : Text) (wanted : settings.reportUnclosed = true) :
    (ofText settings text).findings.filter (·.isUnclosed) =
      (ofText settings text).trees.flatMap Token.unclosedGroups := by
  rw [findings_eq, wanted, trees_ofText, Token.ofLines, List.flatMap_map, List.filter_flatMap]
  refine List.flatMap_congr fun numbered _ => ?_
  have root := Token.kind_ofLine numbered.2 numbered.1
  exact Token.findings_unclosed (congrArg Kind.bracket? root)

/-- A check finds an error exactly if a token is unresolved. -/
theorem exists_error_iff (settings : Settings) (text : Text) :
    (∃ f ∈ (ofText settings text).findings, f.isError) ↔
      ∃ t ∈ (ofText settings text).trees, ∃ u ∈ t.descendants, u.kind = .unresolved := by
  have line (piece : Text) (i : Nat) :=
    Token.exists_error_iff (t := Token.ofLine i piece) settings.reportUnclosed
      (by rw [Token.kind_ofLine]; simp)
  rw [findings_eq, trees_ofText, Token.ofLines]
  simp only [List.mem_flatMap, List.mem_map]
  constructor
  · rintro ⟨f, ⟨⟨piece, i⟩, listed, member⟩, error⟩
    exact ⟨_, ⟨(piece, i), listed, rfl⟩, (line piece i).1 ⟨f, member, error⟩⟩
  · rintro ⟨t, ⟨⟨piece, i⟩, listed, rfl⟩, unresolved⟩
    obtain ⟨f, member, error⟩ := (line piece i).2 unresolved
    exact ⟨f, ⟨(piece, i), listed, member⟩, error⟩

end Document

namespace Output

open Document

/-- A check writes the findings one after the other, each on its own. -/
theorem pieces_check (d : Document) (source : Text) :
    (check d source).pieces = d.findings.map (Diagnostic.shown source) := by
  simp only [check, snippets, List.map_map, List.getElem?_toArray]
  rfl

/-- A check fails exactly for a token that is unresolved. -/
theorem status_eq_one_iff (settings : Settings) (text : Text) :
    (check (ofText settings text) text).status = 1 ↔
      ∃ t ∈ (ofText settings text).trees, ∃ u ∈ t.descendants, u.kind = .unresolved := by
  rw [← exists_error_iff, check, ← List.any_eq_true]
  simp

theorem status_eq_zero_iff (d : Document) (source : Text) :
    (check d source).status = 0 ↔ ¬(check d source).status = 1 := by
  rw [check]
  split <;> simp

/-- What is written about the trees of a source does not depend on the settings. What a check writes
depends on whether open groups are reported, and the warnings about these are the whole difference.
Its status does not depend on the settings: it is one if a token is unresolved, and otherwise zero. -/
theorem settings_change_only_warnings (s s' : Settings) (text : Text) :
    let d := Document.ofText s text
    let d' := Document.ofText s' text
    (∀ json stripWhitespace values,
      tokens d json stripWhitespace values = tokens d' json stripWhitespace values) ∧
    (∀ p, highlight d p = highlight d' p) ∧
    (s.reportUnclosed = s'.reportUnclosed → check d text = check d' text) ∧
    (s.reportUnclosed = true → s'.reportUnclosed = false →
      (check d text).pieces = d.findings.map (Diagnostic.shown text) ∧
      (check d' text).pieces =
        (d.findings.filter fun f => !f.isUnclosed).map (Diagnostic.shown text) ∧
      d.findings.filter (·.isUnclosed) = d.trees.flatMap Token.unclosedGroups) ∧
    (check d text).status = (check d' text).status ∧
    ((check d text).status = 1 ↔ ∃ t ∈ d.trees, ∃ u ∈ t.descendants, u.kind = .unresolved) ∧
    ((check d text).status = 0 ↔ ¬∃ t ∈ d.trees, ∃ u ∈ t.descendants, u.kind = .unresolved) := by
  intro d d'
  have trees : d.trees = d'.trees := by rw [trees_ofText, trees_ofText]
  refine ⟨fun json stripWhitespace values => ?_, fun p => ?_, fun same => ?_,
    fun wanted unwanted => ⟨pieces_check d text, ?_, findings_unclosed text wanted⟩, ?_,
    status_eq_one_iff s text, ?_⟩
  · rw [tokens, tokens, trees]
  · rw [highlight, highlight, trees]
  · have found : d.findings = d'.findings := by rw [findings_eq, findings_eq, same]
    rw [check, check, found]
  · rw [pieces_check, findings_silent text wanted unwanted]
  · have same : (check d text).status = 1 ↔ (check d' text).status = 1 := by
      rw [status_eq_one_iff, status_eq_one_iff, trees]
    by_cases failed : (check d text).status = 1
    · rw [failed, same.1 failed]
    · rw [(status_eq_zero_iff d text).2 failed, (status_eq_zero_iff d' text).2 (mt same.2 failed)]
  · rw [status_eq_zero_iff, status_eq_one_iff]

/-- One of two findings about `a(;` is a warning. More workers make no difference. -/
theorem settings_change_only_warnings_open :
    let wanting : Settings := {}
    let silent : Settings := { threads := 4, parallelMinLines := 0, reportUnclosed := false }
    let text := "a(;\nb".toList
    let warning : Diagnostic := .unclosed 0 1 .round
    let error : Diagnostic := ⟨.error, 0, 2, 3, "unrecognized character ';'".toList, none⟩
    (check (ofText wanting text) text).pieces = [warning.shown text, error.shown text] ∧
      (check (ofText silent text) text).pieces = [error.shown text] := by
  intro wanting silent text warning error
  obtain ⟨whole, rest, -⟩ := (settings_change_only_warnings wanting silent text).2.2.2.1 rfl rfl
  have found : (ofText wanting text).findings = [warning, error] := by
    rw [findings_eq]
    decide +kernel
  rw [whole, rest, found]
  exact ⟨rfl, rfl⟩

end Output
end LineTree
