import LineTree.Proofs.Excerpt
import LineTree.Proofs.Reports

/-!
# Lines put together

A line that ends in whitespace has nothing open but the whitespace. What stands behind it is scanned
as it is in a line of its own, so many bytes further on: the open tokens of the two scans differ by
the distance, and the line holds what was finished in front. Main statements: `InStep.step`,
`InStep.run`, `ScannedLine.ofText_append_of_whitespace`.
-/
namespace LineTree

namespace Token

mutual

/-- The token and all tokens inside it, so many bytes further on. -/
def shifted (distance : Nat) : Token → Token
  | ⟨line, start, literal, kind, children, value⟩ =>
    ⟨line, start + distance, literal, kind, shiftedAll distance children, value⟩

def shiftedAll (distance : Nat) : List Token → List Token
  | [] => []
  | t :: rest => t.shifted distance :: shiftedAll distance rest

end

theorem shiftedAll_eq_map (distance : Nat) (l : List Token) :
    shiftedAll distance l = l.map (shifted distance) := by
  induction l with
  | nil => rfl
  | cons t l ih => rw [shiftedAll, ih, List.map_cons]

theorem shifted_eq (distance : Nat) (t : Token) : t.shifted distance =
    { t with
      start := t.start + distance
      children := t.children.map (shifted distance) } := by
  cases t
  rw [shifted, shiftedAll_eq_map]

end Token

/-- The diagnostic, so many bytes further on. -/
def Diagnostic.shifted (distance : Nat) (d : Diagnostic) : Diagnostic :=
  { d with start := d.start + distance, stop := d.stop + distance }

theorem Problem.diagnostic_shifted (p : Problem) (line offset size distance : Nat) :
    p.diagnostic line (offset + distance) (offset + distance + size) =
      (p.diagnostic line offset (offset + size)).shifted distance := by
  have stop : offset + distance + size = offset + size + distance := by omega
  rw [stop]
  rfl

theorem Diagnostic.unclosed_shifted (line offset distance : Nat) (b : Bracket) :
    Diagnostic.unclosed line (offset + distance) b =
      (Diagnostic.unclosed line offset b).shifted distance := by
  have stop : offset + distance + 1 = offset + 1 + distance := by omega
  rw [Diagnostic.unclosed, stop]
  rfl

namespace OpenToken

/-- The open token, so many bytes further on. -/
def shifted (distance : Nat) (o : OpenToken) : OpenToken :=
  { o with start := o.start + distance, done := o.done.map (Token.shifted distance) }

theorem toToken_shifted (o : OpenToken) (distance line : Nat) :
    (o.shifted distance).toToken line = (o.toToken line).shifted distance := by
  simp [toToken, shifted, Token.shifted_eq]

theorem absorb_shifted (o parent : OpenToken) (distance line : Nat) :
    (parent.shifted distance).absorb (o.shifted distance) line =
      (parent.absorb o line).shifted distance := by
  rw [absorb, toToken_shifted]
  rfl

end OpenToken

/-- The open tokens of two scans, from the inside out. The tokens of the second scan stand so many
bytes further on, and its line holds all that `base` holds where the line of the first one holds an
indent. -/
inductive Grafted (distance : Nat) (base : OpenToken) (indent : Token) :
    List OpenToken → List OpenToken → Prop
  | line (read : Text) (later : List Token) : Grafted distance base indent
      [{ kind := .line, start := 0, read, done := later ++ [indent] }]
      [{ kind := .line, start := 0, read := read ++ base.read,
         done := later.map (Token.shifted distance) ++ base.done }]
  | inside (o : OpenToken) {below below' : List OpenToken}
      (around : Grafted distance base indent below below') :
      Grafted distance base indent (o :: below) (o.shifted distance :: below')

namespace Grafted

variable {distance line : Nat} {base o o' parent parent' : OpenToken} {indent : Token}
  {below below' stack stack' : List OpenToken}

theorem kinds (h : Grafted distance base indent stack stack') :
    stack'.map (·.kind) = stack.map (·.kind) := by
  induction h with
  | line read later => rfl
  | inside o around ih => rw [List.map_cons, List.map_cons, ih]; rfl

theorem kind_eq (h : Grafted distance base indent (o :: below) (o' :: below')) :
    o'.kind = o.kind :=
  (List.cons.inj h.kinds).1

theorem push (h : Grafted distance base indent (o :: below) (o' :: below')) (c : Char) :
    Grafted distance base indent (o.push c :: below) (o'.push c :: below') := by
  cases h with
  | line read later => exact .line (c :: read) later
  | inside _ around => exact .inside (o.push c) around

theorem become (h : Grafted distance base indent (o :: below) (o' :: below'))
    (inner : o.kind ≠ .line) (k : Kind) :
    Grafted distance base indent ({ o with kind := k } :: below)
      ({ o' with kind := k } :: below') := by
  cases h with
  | line read later => exact (inner rfl).elim
  | inside _ around => exact .inside { o with kind := k } around

/-- The innermost tokens end. -/
theorem absorb (h : Grafted distance base indent (o :: parent :: below) (o' :: parent' :: below')) :
    Grafted distance base indent (parent.absorb o line :: below)
      (parent'.absorb o' line :: below') := by
  cases h with
  | inside _ around =>
    cases around with
    | line read later =>
      have grown : Grafted distance base indent _ _ :=
        .line (o.read ++ read) (o.toToken line :: later)
      have same : (o.shifted distance).read = o.read := rfl
      simpa [OpenToken.absorb, OpenToken.toToken_shifted, same] using grown
    | inside _ further =>
      rw [OpenToken.absorb_shifted]
      exact .inside _ further

theorem collapse (h : Grafted distance base indent (o :: below) (o' :: below')) :
    Grafted distance base indent [o.collapse line below] [o'.collapse line below'] := by
  induction below generalizing o o' below' with
  | nil =>
    cases h with
    | line read later => exact .line read later
    | inside _ around => cases around
  | cons parent below ih =>
    cases h with
    | inside _ around =>
      cases below' with
      | nil => cases around
      | cons parent' below' =>
        have closed : Grafted distance base indent (parent.absorb o line :: below)
            (parent'.absorb (o.shifted distance) line :: below') := (inside o around).absorb
        exact (ih closed :)

/-- The lines have the same children but for those of `base` and the indent. -/
theorem children (h : Grafted distance base indent [o] [o']) (line : Nat) : ∃ items,
    (o.toToken line).children = indent :: items ∧
      (o'.toToken line).children =
        (base.toToken line).children ++ items.map (Token.shifted distance) := by
  cases h with
  | line read later => exact ⟨later.reverse, by simp [OpenToken.toToken]⟩
  | inside _ around => cases around

theorem unclosed (h : Grafted distance base indent stack stack') :
    (stack'.filterMap fun o => o.kind.bracket?.map (Diagnostic.unclosed line o.start)) =
      (stack.filterMap fun o => o.kind.bracket?.map (Diagnostic.unclosed line o.start)).map
        (Diagnostic.shifted distance) := by
  induction h with
  | line read later => rfl
  | @inside o below below' around ih =>
    rw [List.filterMap_cons, List.filterMap_cons, ih]
    have kind : (o.shifted distance).kind = o.kind := rfl
    have start : (o.shifted distance).start = o.start + distance := rfl
    rw [kind, start]
    cases o.kind.bracket? with
    | none => rfl
    | some b => simp [Diagnostic.unclosed_shifted]

end Grafted

theorem Scan.reports_close (s : Scan) : s.close.reports = s.reports := by
  unfold close
  split
  · rfl
  · next parent below _ =>
    rw [reports, List.reverse_cons, List.filterMap_append]
    exact List.append_nil _

theorem Scan.reports_report (s : Scan) (p : Problem) (offset size : Nat) :
    (s.report p offset size).reports =
      s.reports ++ [p.diagnostic s.line offset (offset + size)] := by
  rw [reports, report, List.reverse_cons, List.filterMap_append]
  rfl

/-- Of the token in front only a label mark matters. -/
theorem Kind.begunBy_congr {k k' : Kind} {c : Char} (h : k ≠ .labelMark) (h' : k' ≠ .labelMark) :
    k.begunBy c = k'.begunBy c := by
  unfold begunBy
  rw [if_neg h, if_neg h']

/-- Two scans in step: the second one reads behind the finished part `base` of a line what the first
one reads in a line of its own. -/
structure InStep (base : Scan) (indent : Token) (s t : Scan) : Prop where
  line_eq : t.line = s.line
  offset_eq : t.offset = s.offset + base.offset
  stack : Grafted base.offset base.top indent s.openTokens t.openTokens
  reports_eq : t.reports = base.reports ++ s.reports.map (Diagnostic.shifted base.offset)

namespace InStep

variable {base s t : Scan} {indent : Token}

theorem kind_eq (h : InStep base indent s t) : t.top.kind = s.top.kind := h.stack.kind_eq

theorem take (h : InStep base indent s t) (c : Char) :
    InStep base indent (s.take c) (t.take c) where
  line_eq := h.line_eq
  offset_eq := by
    rw [Scan.offset_take, Scan.offset_take, h.offset_eq]
    omega
  stack := h.stack.push c
  reports_eq := h.reports_eq

theorem begin (h : InStep base indent s t) (k : Kind) :
    InStep base indent (s.begin k) (t.begin k) where
  line_eq := h.line_eq
  offset_eq := h.offset_eq
  stack := by
    have begun : Grafted base.offset base.top indent _ _ := .inside { kind := k, start := s.offset }
      h.stack
    simpa [Scan.begin, Scan.openTokens, OpenToken.shifted, h.offset_eq] using begun
  reports_eq := h.reports_eq

theorem become (h : InStep base indent s t) (inner : s.top.kind ≠ .line) (k : Kind) :
    InStep base indent (s.become k) (t.become k) where
  line_eq := h.line_eq
  offset_eq := h.offset_eq
  stack := h.stack.become inner k
  reports_eq := h.reports_eq

theorem close (h : InStep base indent s t) : InStep base indent s.close t.close where
  line_eq := by rw [Scan.line_close, Scan.line_close, h.line_eq]
  offset_eq := by rw [Scan.offset_close, Scan.offset_close, h.offset_eq]
  stack := by
    obtain ⟨line_eq, -, stack, -⟩ := h
    obtain ⟨line, _, o, below, _⟩ := s
    obtain ⟨line', _, o', below', _⟩ := t
    obtain rfl : line' = line := line_eq
    cases below with
    | nil =>
      cases below' with
      | nil => exact stack
      | cons parent' below' => cases stack with | inside _ around => cases around
    | cons parent below =>
      cases below' with
      | nil => cases stack with | inside _ around => cases around
      | cons parent' below' => exact stack.absorb
  reports_eq := by rw [Scan.reports_close, Scan.reports_close, h.reports_eq]

theorem report (h : InStep base indent s t) (p : Problem) (size : Nat) :
    InStep base indent (s.report p s.offset size) (t.report p t.offset size) where
  line_eq := h.line_eq
  offset_eq := h.offset_eq
  stack := h.stack
  reports_eq := by
    rw [Scan.reports_report, Scan.reports_report, h.reports_eq, h.line_eq, h.offset_eq,
      Problem.diagnostic_shifted, List.map_append, List.append_assoc]
    rfl

theorem innermostBracket?_eq (h : InStep base indent s t) :
    t.innermostBracket? = s.innermostBracket? := by
  have kinds := h.stack.kinds
  have found : ∀ stack : List OpenToken, stack.findSome? (·.kind.bracket?) =
      (stack.map (·.kind)).findSome? Kind.bracket? := by
    intro stack
    rw [List.findSome?_map]
    rfl
  rw [Scan.innermostBracket?, Scan.innermostBracket?, found, found, kinds]

theorem closeBracket (h : InStep base indent s t) (b : Bracket) (c : Char) :
    InStep base indent (s.closeBracket b c) (t.closeBracket b c) := by
  unfold Scan.closeBracket
  rw [h.kind_eq, h.innermostBracket?_eq]
  split
  · exact ((h.take c).close).begin .whitespace
  · exact ((h.report _ _).begin .unresolved).take c

theorem beginWith (h : InStep base indent s t) {previous previous' : Kind} {c : Char}
    (same : previous'.begunBy c = previous.begunBy c) :
    InStep base indent (s.beginWith previous c) (t.beginWith previous' c) := by
  have begun := (h.begin (previous.begunBy c)).take c
  simp only [Scan.beginWith, same]
  split
  · exact begun.begin .whitespace
  · exact begun

/-- The scans make the same step. -/
theorem step (h : InStep base indent s t) (c : Char) :
    InStep base indent (s.step c) (t.step c) := by
  unfold Scan.step
  rw [h.kind_eq]
  cases effect : s.top.kind.effect c with
  | extend => exact h.take c
  | endBefore =>
    cases Bracket.ofCloser? c with
    | some b => exact h.close.closeBracket b c
    | none => exact h.close.beginWith rfl
  | endWithGap => exact ((h.take c).close).begin .whitespace
  | endAfter => exact (h.take c).close
  | nest k => exact (h.begin k).take c
  | become k =>
    have inner : s.top.kind ≠ .line := by
      rcases Kind.effect_become effect with ⟨kind, -⟩ | ⟨kind, -⟩ | ⟨kind, -⟩ | ⟨kind, -⟩ <;>
        simp [kind]
    exact (h.become inner k).take c

theorem run (h : InStep base indent s t) (text : Text) :
    InStep base indent (s.run text) (t.run text) := by
  induction text generalizing s t with
  | nil => exact h
  | cons c text ih => exact ih (h.step c)

theorem unclosed_eq (h : InStep base indent s t) :
    t.unclosed = s.unclosed.map (Diagnostic.shifted base.offset) := by
  rw [Scan.unclosed_eq, Scan.unclosed_eq, h.line_eq, List.filterMap_reverse, List.filterMap_reverse,
    h.stack.unclosed, List.map_reverse]

end InStep

/-- If the last child of the line is whitespace, nothing is open in the line but that. -/
theorem Sound.only_whitespace {line : Nat} {text : Text} {o parent : OpenToken}
    {below : List OpenToken} (h : Sound line text [] (o :: parent :: below))
    (filled : o.kind.isFilled → o.done ≠ [])
    (reads : text = ((o :: parent :: below).flatMap (·.read)).reverse) {t : Token}
    (last : ((o.collapse line (parent :: below)).toToken line).children.getLast? = some t)
    (blank : t.kind = .whitespace) :
    o.kind = .whitespace ∧ parent.kind = .line ∧ parent.start = 0 ∧ below = [] := by
  induction below generalizing o parent with
  | nil =>
    rw [OpenToken.collapse, OpenToken.collapse, OpenToken.children_absorb o parent,
      List.getLast?_concat] at last
    obtain rfl := Option.some.inj last
    cases h.around with
    | line kind start _ => exact ⟨blank, kind, start, rfl⟩
  | cons outer below ih =>
    -- The token around the innermost one has a frame, so it is no whitespace.
    have reads' : text = ((parent.absorb o line :: outer :: below).flatMap (·.read)).reverse := by
      simpa [OpenToken.absorb] using reads
    have around := ih (h.close filled reads) (fun _ => by simp [OpenToken.absorb]) reads' last
    have kind : parent.kind = .whitespace := around.1
    obtain ⟨f, framed⟩ := Kind.frame?_of_admits h.within.admits
    rw [kind] at framed
    cases framed

namespace Scan

/-- A character that is not blank ends whitespace and indents alike. -/
theorem step_solid {s : Scan} {c : Char} (kind : s.top.kind = .whitespace ∨ s.top.kind = .indent)
    (solid : isBlank c = false) : s.step c =
      match Bracket.ofCloser? c with
      | some b => s.close.closeBracket b c
      | none => s.close.beginWith s.top.kind c := by
  have effect : s.top.kind.effect c = .endBefore := by
    rcases kind with blank | indent
    · simp [blank, Kind.effect, Effect.extendIf, solid]
    · have other : c ≠ '\t' := by
        rintro rfl
        cases solid
      simp [indent, Kind.effect, Effect.extendIf, other]
  cases closer : Bracket.ofCloser? c with
  | none => simp [step, effect, closer]
  | some b => simp [step, effect, closer]

/-- Only the innermost token is open in the line: the tree is complete when that ends. -/
theorem tree_of_below {s : Scan} {line : Nat} {parent : OpenToken} (below : s.below = [parent])
    (number : s.line = line) :
    (s.top.collapse line s.below).toToken line = s.close.top.toToken line := by
  obtain ⟨_, offset, top, _, events⟩ := s
  obtain rfl := below
  obtain rfl := number
  rfl

theorem unclosed_of_below {s : Scan} {parent : OpenToken} (top : s.top.kind = .whitespace)
    (below : s.below = [parent]) (kind : parent.kind = .line) : s.unclosed = [] := by
  have open' : s.openTokens = [s.top, parent] := by rw [openTokens, below]
  rw [unclosed_eq, open', List.reverse_cons]
  simp [top, kind, Kind.bracket?]

/-- Behind whitespace a scan goes on as at the front of a line. -/
theorem inStep_solid {s : Scan} {parent : OpenToken} {c : Char} (top : s.top.kind = .whitespace)
    (below : s.below = [parent]) (kind : parent.kind = .line) (start : parent.start = 0)
    (solid : isBlank c = false) :
    InStep s.close (Token.emptyIndent s.line) ((Scan.start s.line).step c) (s.step c) := by
  have closed : InStep s.close (Token.emptyIndent s.line) (Scan.start s.line).close s.close := by
    constructor
    case line_eq => exact line_close s
    case offset_eq => exact (Nat.zero_add _).symm
    case reports_eq => exact (List.append_nil _).symm
    case stack =>
      obtain ⟨line, offset, top, _, events⟩ := s
      obtain rfl := below
      obtain ⟨_, _, read, done⟩ := parent
      obtain rfl := kind
      obtain rfl := start
      exact .line [] []
  have same : Kind.whitespace.begunBy c = Kind.indent.begunBy c :=
    Kind.begunBy_congr (by decide) (by decide)
  rw [step_solid (Or.inl top) solid, step_solid (Or.inr rfl) solid]
  cases Bracket.ofCloser? c with
  | some b => exact closed.closeBracket b c
  | none =>
    rw [top]
    exact closed.beginWith same

end Scan

namespace ScannedLine

variable {line : Nat} {text : Text}

/-- A line that ends in whitespace leaves a scan with that whitespace alone. -/
theorem run_of_whitespace (ends : ∃ last, (Token.ofLine line text).children.getLast? = some last ∧
      last.kind = .whitespace) :
    let s := (Scan.start line).run text
    s.top.kind = .whitespace ∧ ∃ parent, s.below = [parent] ∧ parent.kind = .line ∧
      parent.start = 0 := by
  intro s
  obtain ⟨last, final, blank⟩ := ends
  have invariant := Scan.invariant_end line text
  have tree : Token.ofLine line text = (s.top.collapse line s.below).toToken line :=
    tree_eq line text true
  rw [tree] at final
  have sound : Sound line text [] (s.top :: s.below) := invariant.sound
  have reads : text = ((s.top :: s.below).flatMap (·.read)).reverse := invariant.reads_end
  have settled : s.top.kind.isFilled = false := invariant.settled
  cases below : s.below with
  | nil =>
    rw [below] at sound
    have kind := sound.bottom.2 rfl
    rw [kind] at settled
    cases settled
  | cons parent around =>
    rw [below] at sound reads final
    obtain ⟨top, kind, start, rfl⟩ :=
      sound.only_whitespace invariant.top_nonempty reads final blank
    exact ⟨top, parent, rfl, kind, start⟩

/-- What stands behind a line that ends in whitespace, and does not begin with a blank character, is
scanned as it is alone: the line has its own children, and behind them those of the text put behind
it, less the indent, so many bytes further on. The same holds of the reports. -/
theorem ofText_append_of_whitespace (line : Nat) (text more : Text)
    (ends : ∃ last, (Token.ofLine line text).children.getLast? = some last ∧
      last.kind = .whitespace)
    (solid : ∀ c ∈ more.head?, isBlank c = false) :
    (∃ items, (Token.ofLine line more).children = Token.emptyIndent line :: items ∧
      (Token.ofLine line (text ++ more)).children = (Token.ofLine line text).children ++
        items.map (Token.shifted (Text.byteLength text))) ∧
    ∀ report, (ofText line (text ++ more) report).diagnostics =
      (ofText line text report).diagnostics ++
        (ofText line more report).diagnostics.map (Diagnostic.shifted (Text.byteLength text)) := by
  cases more with
  | nil =>
    refine ⟨⟨[], rfl, by simp⟩, fun report => ?_⟩
    have none : (ofText line [] report).diagnostics = [] := by cases report <;> rfl
    rw [none, List.append_nil, List.map_nil, List.append_nil]
  | cons c more =>
    obtain ⟨top, parent, below, kind, start⟩ := run_of_whitespace ends
    have number : ((Scan.start line).run text).line = line :=
      (Scan.invariant_end line text).line_eq
    have offset : ((Scan.start line).run text).close.offset = Text.byteLength text := by
      rw [Scan.offset_close, Scan.offset_run]
      exact Nat.zero_add _
    have tree : Token.ofLine line text = ((Scan.start line).run text).close.top.toToken line :=
      (tree_eq line text true).trans (Scan.tree_of_below below number)
    have nothing : ((Scan.start line).run text).unclosed = [] :=
      Scan.unclosed_of_below top below kind
    have inStep := (Scan.inStep_solid top below kind start (solid c rfl)).run more
    rw [number, ← Scan.run_cons, ← Scan.run_cons, ← Scan.run_append] at inStep
    constructor
    · obtain ⟨items, alone, behind⟩ := inStep.stack.collapse.children line
      refine ⟨items, ?_, ?_⟩
      · rw [← alone]
        exact congrArg Token.children (tree_eq line (c :: more) true)
      · rw [tree, ← offset, ← behind]
        exact congrArg Token.children (tree_eq line (text ++ c :: more) true)
    · intro report
      rw [diagnostics_eq, diagnostics_eq, diagnostics_eq, nothing, inStep.reports_eq,
        inStep.unclosed_eq, Scan.reports_close, offset]
      cases report <;> simp

/-- A closing bracket without a group before the cut, and a group that is open behind it. -/
theorem ofText_append_of_whitespace_brackets :
    (∃ items, (Token.ofLine 3 ")(".toList).children = Token.emptyIndent 3 :: items ∧
      (Token.ofLine 3 "1f)(".toList).children = (Token.ofLine 3 "1f".toList).children ++
        items.map (Token.shifted 2)) ∧
    ∀ report, (ofText 3 "1f)(".toList report).diagnostics =
      (ofText 3 "1f".toList report).diagnostics ++
        (ofText 3 ")(".toList report).diagnostics.map (Diagnostic.shifted 2) :=
  ofText_append_of_whitespace 3 "1f".toList ")(".toList ⟨_, rfl, rfl⟩ fun _ first =>
    Option.some.inj first ▸ rfl

end ScannedLine
end LineTree
