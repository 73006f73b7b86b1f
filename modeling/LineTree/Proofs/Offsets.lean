import LineTree.Proofs.Finish
import LineTree.Proofs.Reports
import LineTree.Proofs.Shape

/-!
# Scanning by offsets

A scan need not keep the characters that it has read. It can remember where its open tokens begin,
and cut each one out of the line when it is closed. Such a scan could fail: with no token to close,
with a cut outside the line or inside a character, and at a kind of token that should never stand
innermost. It does not, whatever the line, and it finds the same tokens and makes the same reports.
Main statements: `Move.step?_eq`, `OffsetScan.run?_eq`, `OffsetScan.ofText?_eq`,
`Scan.stack_and_cuts`.
-/
namespace LineTree

/-- An open token that remembers where it begins, but not what it has read. -/
structure Opened where
  kind : Kind
  start : Nat
  /-- The closed tokens inside, the last one first. -/
  done : List Token := []

/-- A scan that cuts its tokens out of the line. -/
structure OffsetScan where
  line : Nat
  text : Text
  /-- The open tokens, from the inside out. The last one is the line, which is never closed. -/
  stack : List Opened
  /-- The events so far, the last one first. -/
  events : List ScanEvent

/-- What the character does to an open token of the kind, if that can stand innermost. -/
def Kind.effect? (k : Kind) (c : Char) : Option Effect :=
  match k with
  | .line | .brackets _ | .semantic _ => none
  | _ => some (k.effect c)

namespace OffsetScan

def start (line : Nat) (text : Text) : OffsetScan where
  line := line
  text := text
  stack := [{ kind := .indent, start := 0 }, { kind := .line, start := 0 }]
  events := []

/-- The kind of the innermost token. -/
def topKind (s : OffsetScan) : Kind := (s.stack.head?.map (·.kind)).getD .line

/-- A token begins at the offset, inside the innermost one. -/
def push (s : OffsetScan) (kind : Kind) (start : Nat) : OffsetScan :=
  { s with stack := { kind, start } :: s.stack }

/-- The innermost token turns into one of another kind. -/
def become (s : OffsetScan) (kind : Kind) : OffsetScan :=
  { s with stack := s.stack.modifyHead fun o => { o with kind } }

/-- The innermost token ends in front of byte `stop`. Fails if none is open in the line, or if its
text cannot be cut out of the line. -/
def close? (s : OffsetScan) (stop : Nat) : Option OffsetScan :=
  match s.stack with
  | o :: parent :: below =>
    (Text.slice? s.text o.start stop).map fun literal =>
      let token : Token :=
        { line := s.line, start := o.start, literal, kind := o.kind, children := o.done.reverse }
      { s with
        stack := { parent with done := token :: parent.done } :: below
        events := .closed token :: s.events }
  | _ => none

/-- Reports a closing bracket that does not fit, and opens an unresolved token at it. -/
def mismatch (s : OffsetScan) (bracket : Bracket) (start stop : Nat) : OffsetScan :=
  let innermost := s.stack.findSome? (·.kind.bracket?)
  let report := (Problem.mismatched bracket innermost).diagnostic s.line start stop
  { s with events := .reported report :: s.events }.push .unresolved start

/-- A token begins at the offset behind one of the given kind. Whitespace is opened at once inside
a bracket group. -/
def beginWith (s : OffsetScan) (previous : Kind) (c : Char) (start : Nat) : OffsetScan :=
  let kind := previous.begunBy c
  let s := s.push kind start
  if kind.isBracket then s.push .whitespace (start + c.utf8Size) else s

/-- Reads the character at the given offset. -/
def step? (s : OffsetScan) (offset : Nat) (c : Char) : Option OffsetScan :=
  let behind := offset + c.utf8Size
  match s.topKind.effect? c with
  | none => none
  | some .extend => some s
  | some .endBefore =>
    (s.close? offset).bind fun closed =>
      match Bracket.ofCloser? c with
      | some bracket =>
        if closed.topKind = .brackets bracket then
          (closed.close? behind).map (·.push .whitespace behind)
        else some (closed.mismatch bracket offset behind)
      | none => some (closed.beginWith s.topKind c offset)
  | some .endWithGap => (s.close? behind).map (·.push .whitespace behind)
  | some .endAfter => s.close? behind
  | some (.nest kind) => some (s.push kind offset)
  | some (.become kind) => some (s.become kind)

/-- Reads a part of the line that begins at the given offset. -/
def run? (s : OffsetScan) (offset : Nat) : Text → Option OffsetScan
  | [] => some s
  | c :: later => (s.step? offset c).bind (·.run? (offset + c.utf8Size) later)

/-- The reports about the open groups, the outermost first. The opening bracket is read off the line
from the start of its group on. -/
def unclosed? (line : Nat) (text : Text) : List Opened → Option (List Diagnostic)
  | [] => some []
  | o :: below =>
    (unclosed? line text below).bind fun outer =>
      match o.kind.bracket? with
      | none => some outer
      | some bracket =>
        (Text.slice? text o.start (Text.byteLength text)).map fun behind =>
          outer ++ (behind.head?.map fun opener =>
            ({ severity := .warning
               line
               start := o.start
               stop := o.start + opener.utf8Size
               message := "unclosed ".toList ++ Problem.inQuotes [opener]
               hint := some ("add ".toList ++ Problem.inQuotes [bracket.closer]) } :
              Diagnostic)).toList

/-- Makes the reports about open groups known. -/
def reportUnclosed? (s : OffsetScan) : Option OffsetScan :=
  (unclosed? s.line s.text s.stack).map fun found =>
    { s with events := (found.map ScanEvent.reported).reverse ++ s.events }

/-- Closes all open tokens but the line at the end of the line. -/
def finish? (s : OffsetScan) : Option OffsetScan :=
  s.stack.tail.foldlM (fun s _ => s.close? (Text.byteLength s.text)) s

/-- Scans a line. Fails if any step does, or if a token is open at the end. -/
def ofText? (line : Nat) (text : Text) (report : Bool) : Option ScannedLine :=
  ((start line text).run? 0 text).bind fun s =>
    (if report then s.reportUnclosed? else some s).bind fun s =>
      s.finish?.bind fun s =>
        match s.stack with
        | [whole] =>
          some {
            tree := { line, start := 0, literal := text, kind := .line,
                      children := whole.done.reverse }
            events := s.events.reverse }
        | _ => none

end OffsetScan

/-- The open token without the characters that it has read. -/
def OpenToken.opened (o : OpenToken) : Opened := { kind := o.kind, start := o.start, done := o.done }

/-- What a scan by offsets keeps of open tokens, given from the inside out, and of events. -/
def OffsetScan.of (line : Nat) (text : Text) (stack : List OpenToken) (events : List ScanEvent) :
    OffsetScan :=
  { line, text, stack := stack.map (·.opened), events }

/-- What a scan by offsets keeps of a scan of the line. -/
def Scan.byOffsets (s : Scan) (text : Text) : OffsetScan := .of s.line text s.openTokens s.events

open OpenToken

variable {line offset : Nat} {text rest : Text} {c : Char} {events before : List ScanEvent}

/-- Every kind that stands innermost between two characters may stand there. -/
theorem Sound.effect?_eq {o : OpenToken} {below : List OpenToken}
    (h : Sound line text rest (o :: below)) (settled : o.kind.isFilled = false) :
    o.kind.effect? c = some (o.kind.effect c) := by
  have plain := h.not_semantic settled
  cases kind : o.kind with
  | line | brackets b => simp [kind, Kind.isFilled] at settled
  | semantic m => simp [kind, Kind.isSemantic] at plain
  | _ => rfl

namespace OffsetScan

variable {o parent : OpenToken} {below : List OpenToken}

/-- A cut that succeeds closes the innermost token. -/
theorem close?_of_slice {stop : Nat} (cut : Text.slice? text o.start stop = some o.read.reverse) :
    (of line text (o :: parent :: below) before).close? stop =
      some (of line text (parent.absorb o line :: below) (.closed (o.toToken line) :: before)) := by
  have opened : o.opened.start = o.start := rfl
  simp only [close?, of, List.map_cons, opened, cut, Option.map_some]
  rfl

/-- The innermost token can be cut out of the line in front of the next character. -/
theorem close?_eq (sound : Sound line text rest (o :: parent :: below)) {after : Text}
    (reads : text = ((o :: parent :: below).flatMap (·.read)).reverse ++ after)
    (here : offset = Text.byteLength ((o :: parent :: below).flatMap (·.read))) :
    (of line text (o :: parent :: below) before).close? offset =
      some (of line text (parent.absorb o line :: below) (.closed (o.toToken line) :: before)) := by
  obtain ⟨front, place, start⟩ := sound.standing reads
  refine close?_of_slice (Text.slice?_eq_some_iff.2 ⟨front, after, place, start, ?_⟩)
  rw [here, sound.stop, Text.byteLength_reverse]

/-- It can be cut out of the line behind the next character as well. -/
theorem close?_push (sound : Sound line text rest (o :: parent :: below)) {after : Text}
    (reads : text = ((o :: parent :: below).flatMap (·.read)).reverse ++ c :: after)
    (here : offset = Text.byteLength ((o :: parent :: below).flatMap (·.read))) :
    (of line text (o :: parent :: below) before).close? (offset + c.utf8Size) =
      some (of line text (parent.absorb (o.push c) line :: below)
        (.closed ((o.push c).toToken line) :: before)) := by
  obtain ⟨front, place, start⟩ := sound.standing reads
  have cut : Text.slice? text (o.push c).start (offset + c.utf8Size) =
      some (o.push c).read.reverse := by
    refine Text.slice?_eq_some_iff.2 ⟨front, after, ?_, start, ?_⟩
    · rw [place]
      simp [OpenToken.push]
    · rw [here, sound.stop, Text.byteLength_reverse]
      simp only [OpenToken.push, Text.byteLength_cons]
      omega
  exact close?_of_slice cut

/-- A closing bracket that does not fit is reported with the innermost group. -/
theorem mismatch_of {b : Bracket} (around : Sound line text rest (parent :: below))
    (filled : parent.kind.isFilled) :
    (of line text (parent :: below) before).mismatch b offset (offset + c.utf8Size) =
      of line text (begun .unresolved offset c :: parent :: below)
        (.reported ((Problem.mismatched b parent.kind.bracket?).diagnostic line offset
          (offset + c.utf8Size)) :: before) := by
  have innermost : (parent :: below).findSome? (·.kind.bracket?) = parent.kind.bracket? :=
    Scan.innermostBracket?_eq (s := ⟨line, offset, parent, below, before⟩)
      (fun kind => around.bottom.1 kind) filled
  have found : ((parent :: below).map (·.opened)).findSome? (·.kind.bracket?) =
      parent.kind.bracket? := by
    rw [List.findSome?_map]
    exact innermost
  simp only [mismatch, of, found]
  rfl

end OffsetScan

open OffsetScan

/-- A scan by offsets can make every move, and finds what the move finds. -/
theorem Move.step?_eq {stack next : List OpenToken} (move : Move line offset c stack next events)
    (sound : Sound line text (c :: rest) stack)
    (settled : ∀ o ∈ stack.head?, o.kind.isFilled = false)
    (here : offset = Text.byteLength (stack.flatMap (·.read)))
    (reads : text = (stack.flatMap (·.read)).reverse ++ c :: rest) :
    (OffsetScan.of line text stack before).step? offset c =
      some (.of line text next (events.reverse ++ before)) := by
  have ready : ∀ o below, stack = o :: below →
      (OffsetScan.of line text stack before).topKind.effect? c = some (o.kind.effect c) := by
    rintro o below rfl
    exact sound.effect?_eq (settled o rfl)
  cases move with
  | @extend o below effect =>
    simp only [step?, ready o below rfl, effect]
    rfl
  | @become o below k effect =>
    simp only [step?, ready o below rfl, effect]
    rfl
  | @nest o below k effect =>
    simp only [step?, ready o below rfl, effect]
    rfl
  | @endAfter o parent below effect =>
    simp only [step?, ready o _ rfl, effect]
    exact close?_push sound reads here
  | @endWithGap o parent below effect =>
    simp only [step?, ready o _ rfl, effect, close?_push sound reads here, Option.map_some]
    rfl
  | @closeGroup o group outer below b effect kind closer =>
    have inner := sound.endBefore effect (settled o rfl) reads
    have same : (group.absorb o line :: outer :: below).flatMap (·.read) =
        (o :: group :: outer :: below).flatMap (·.read) := by
      simp [OpenToken.absorb]
    rw [← same] at here
    have reads' := reads
    rw [← same] at reads'
    have top : (OffsetScan.of line text (group.absorb o line :: outer :: below)
        (.closed (o.toToken line) :: before)).topKind = .brackets b := kind
    simp only [step?, ready o _ rfl, effect, close?_eq sound reads (here.trans (by rw [same])),
      Option.bind_some, Bracket.ofCloser?_eq_some_iff.2 closer, top, if_true,
      close?_push inner reads' here, Option.map_some]
    rfl
  | @mismatch o parent below b effect closer other =>
    have inner := sound.endBefore effect (settled o rfl) reads
    have filled := sound.within.filled_of_endBefore effect
    have top : (OffsetScan.of line text (parent.absorb o line :: below)
        (.closed (o.toToken line) :: before)).topKind ≠ .brackets b := other
    simp only [step?, ready o _ rfl, effect, close?_eq sound reads here, Option.bind_some,
      Bracket.ofCloser?_eq_some_iff.2 closer, if_neg top, mismatch_of inner filled]
    rfl
  | @openGroup o parent below b effect opener =>
    have plain : Bracket.ofCloser? c = none := by
      rw [opener]
      cases b <;> rfl
    have kind : (OffsetScan.of line text (o :: parent :: below) before).topKind.begunBy c =
        .brackets b := Kind.begunBy_eq_brackets_iff.2 opener
    simp only [step?, ready o _ rfl, effect, close?_eq sound reads here, Option.bind_some, plain,
      beginWith, kind]
    rfl
  | @begin o parent below effect closer opener =>
    have kind : ((OffsetScan.of line text (o :: parent :: below) before).topKind.begunBy c).isBracket =
        false := Scan.begunBy_isBracket opener
    simp only [step?, ready o _ rfl, effect, close?_eq sound reads here, Option.bind_some, closer,
      beginWith, kind]
    rfl

namespace Scan

/-- The next character of the line makes the same step by offsets. -/
theorem step?_byOffsets {s : Scan} (h : Invariant line text (c :: rest) s) :
    (s.byOffsets text).step? s.offset c = some ((s.step c).byOffsets text) := by
  obtain ⟨events, move, known⟩ := h.move
  obtain rfl := h.line_eq
  have here : s.offset = Text.byteLength (s.openTokens.flatMap (·.read)) := by
    rw [h.offset_eq, consumed, Text.byteLength_reverse]
  rw [byOffsets, byOffsets, line_step, known]
  exact move.step?_eq h.sound h.settled_head here h.reads

/-- And so does every part of the line. -/
theorem run?_byOffsets {s : Scan} {read : Text} (h : Invariant line text (read ++ rest) s) :
    (s.byOffsets text).run? s.offset read = some ((s.run read).byOffsets text) := by
  induction read generalizing s with
  | nil => rfl
  | cons c read ih =>
    rw [OffsetScan.run?, step?_byOffsets h, Option.bind_some, ← offset_step]
    exact ih (invariant_step h)

end Scan

namespace OffsetScan

variable {o : OpenToken} {below : List OpenToken}

/-- The opening brackets of open groups can be read off the line. -/
theorem unclosed?_eq {stack : List OpenToken} {after : Text} (sound : Sound line text rest stack)
    (reads : text = (stack.flatMap (·.read)).reverse ++ after) :
    unclosed? line text (stack.map (·.opened)) =
      some (stack.reverse.filterMap fun o => o.kind.bracket?.map (.unclosed line o.start)) := by
  induction sound generalizing after with
  | @line o kind _ _ =>
    have plain : o.kind.bracket? = none := by
      rw [kind]
      rfl
    simp [unclosed?, OpenToken.opened, plain]
  | @inside o parent below within steady around ih =>
    have inner : text =
        ((parent :: below).flatMap (·.read)).reverse ++ (o.read.reverse ++ after) := by
      rw [reads, List.flatMap_cons, List.reverse_append, List.append_assoc]
    have opened : o.opened.kind = o.kind ∧ o.opened.start = o.start := ⟨rfl, rfl⟩
    have split : (o :: parent :: below).reverse = (parent :: below).reverse ++ [o] :=
      List.reverse_cons
    rw [List.map_cons, unclosed?, ih inner, Option.bind_some, opened.1, opened.2, split,
      List.filterMap_append]
    cases group : o.kind.bracket? with
    | none => simp only [List.filterMap_cons, group, Option.map_none, List.filterMap_nil,
        List.append_nil]
    | some b =>
      have own : [o].filterMap (fun o => o.kind.bracket?.map (.unclosed line o.start)) =
          [Diagnostic.unclosed line o.start b] := by
        simp [group]
      obtain ⟨front, place, start⟩ := (Sound.inside within steady around).standing reads
      obtain ⟨body, read, -⟩ :=
        steady.grows.framed _ (congrArg Kind.frame? (Kind.bracket?_eq_some_iff.1 group))
      have cut : Text.slice? text o.start (Text.byteLength text) =
          some (b.opener :: (body ++ after)) := by
        rw [List.append_assoc, read] at place
        refine Text.slice?_eq_some_iff.2 ⟨front, [], by simpa using place, start, ?_⟩
        rw [place, ← start, Text.byteLength_append]
        simp
      rw [own, ← Problem.unclosed_diagnostic, cut]
      rfl

/-- At the end of the line all tokens but the line can be cut out of it. -/
theorem finish?_eq (sound : Sound line text [] (o :: below))
    (filled : o.kind.isFilled → o.done ≠ []) (reads : text = ((o :: below).flatMap (·.read)).reverse) :
    (of line text (o :: below) before).finish? = some (of line text [o.collapse line below]
      (((collapsed line o below).map ScanEvent.closed).reverse ++ before)) := by
  have tail : (of line text (o :: below) before).stack.tail = below.map (·.opened) := rfl
  rw [finish?, tail]
  clear tail
  induction below generalizing o before with
  | nil => rfl
  | cons parent below ih =>
    have here : Text.byteLength text = Text.byteLength ((o :: parent :: below).flatMap (·.read)) := by
      rw [reads, Text.byteLength_reverse]
    have closed : (of line text (o :: parent :: below) before).close?
        (Text.byteLength (of line text (o :: parent :: below) before).text) = _ :=
      close?_eq sound (reads.trans (List.append_nil _).symm) here
    rw [List.map_cons, List.foldlM_cons, closed, Option.bind_eq_bind, Option.bind_some,
      ih (sound.close filled reads) (fun _ => by simp [OpenToken.absorb])
        (by simpa [OpenToken.absorb] using reads)]
    simp [OpenToken.collapse, collapsed]

end OffsetScan

namespace Scan

variable {s : Scan}

theorem reportUnclosed?_byOffsets (h : Invariant line text [] s) :
    (s.byOffsets text).reportUnclosed? = some (s.reportUnclosed.byOffsets text) := by
  have found := OffsetScan.unclosed?_eq h.sound h.reads
  rw [← h.line_eq, ← unclosed_eq] at found
  have kept : (s.byOffsets text).stack = s.openTokens.map (·.opened) := rfl
  rw [OffsetScan.reportUnclosed?, kept]
  exact congrArg (Option.map _) found

theorem invariant_reportUnclosed (h : Invariant line text rest s) :
    Invariant line text rest s.reportUnclosed :=
  ⟨h.line_eq, h.reads, h.offset_eq, h.sound, h.settled⟩

theorem finish?_byOffsets (h : Invariant line text [] s) :
    (s.byOffsets text).finish? = some (s.closeAll.byOffsets text) := by
  have sound : Sound s.line text [] (s.top :: s.below) := by
    rw [h.line_eq]
    exact h.sound
  rw [closeAll_eq]
  exact OffsetScan.finish?_eq sound h.top_nonempty h.reads_end

theorem below_closeAll (s : Scan) : s.closeAll.below = [] := by rw [closeAll_eq]

end Scan

/-- Scanning a line by offsets never fails, and gives the same tree and the same events. -/
theorem OffsetScan.ofText?_eq (line : Nat) (text : Text) (report : Bool) :
    ofText? line text report = some (ScannedLine.ofText line text report) := by
  have root := ScannedLine.isRoot line text report
  have run : (start line text).run? 0 text =
      some (((Scan.start line).run text).byOffsets text) :=
    Scan.run?_byOffsets (Scan.invariant_whole line text)
  have invariant := Scan.invariant_end line text
  have reported : ∃ s : Scan, Scan.Invariant line text [] s ∧
      (if report then (((Scan.start line).run text).byOffsets text).reportUnclosed?
        else some (((Scan.start line).run text).byOffsets text)) = some (s.byOffsets text) ∧
      ScannedLine.ofText line text report =
        { tree := s.closeAll.top.toToken line, events := s.closeAll.events.reverse } := by
    cases report with
    | false => exact ⟨_, invariant, rfl, rfl⟩
    | true =>
      exact ⟨_, Scan.invariant_reportUnclosed invariant, Scan.reportUnclosed?_byOffsets invariant, rfl⟩
  obtain ⟨s, ended, same, result⟩ := reported
  rw [ofText?, run, Option.bind_some, same, Option.bind_some, Scan.finish?_byOffsets ended,
    Option.bind_some, result]
  rw [result] at root
  have stack : (s.closeAll.byOffsets text).stack = [s.closeAll.top.opened] := by
    rw [Scan.byOffsets, OffsetScan.of, Scan.openTokens, Scan.below_closeAll]
    rfl
  rw [stack]
  have kind : s.closeAll.top.kind = .line := root.kind_eq
  have first : s.closeAll.top.start = 0 := root.start_eq
  have literal : s.closeAll.top.read.reverse = text := root.literal_eq
  simp only [toToken, kind, first, literal]
  rfl

/-- The stack of a scan between two characters of a line, and the cuts that it takes to close its
tokens. What is open in the line is a row of groups around one token of another kind, which may hold
an escape if it is a quoted literal, and its content if it is a comment. An indent is open alone. The
tokens begin one behind the other, at ends of characters, and none behind the place read last. So
neither the line nor a group nor a kind that no scan gives stands innermost. A scan by offsets, which
fails with no token to close, at such a kind, for a cut that is no part of the line, and with a
token open at the end, has come to the same place and goes on to the same result. -/
theorem Scan.stack_and_cuts (line : Nat) (read rest : Text) (report : Bool) :
    let text := read ++ rest
    let s := (Scan.start line).run read
    s.offset = Text.byteLength read ∧
    (∃ stack whole, s.openTokens = stack ++ [whole] ∧ whole.kind = .line ∧ stack ≠ [] ∧
      Shaped stack ∧
      (∀ o ∈ stack, o.kind = .indent → stack = [o]) ∧
      (stack.Pairwise fun inner outer => outer.start ≤ inner.start) ∧
      ∀ o ∈ stack, o.start ≤ s.offset ∧
        ∃ before after, text = before ++ after ∧ Text.byteLength before = o.start) ∧
    (s.top.kind ≠ .line ∧ s.top.kind.isBracket = false ∧ s.top.kind.isSemantic = false) ∧
    (OffsetScan.start line text).run? 0 read = some (s.byOffsets text) ∧
    OffsetScan.ofText? line text report = some (ScannedLine.ofText line text report) := by
  intro text s
  have start : Invariant line text (read ++ rest) (Scan.start line) := invariant_start line text
  have invariant : Invariant line text rest s := invariant_run start
  have place : s.offset = Text.byteLength (s.openTokens.flatMap (·.read)) := by
    rw [invariant.offset_eq, consumed, Text.byteLength_reverse]
  refine ⟨?_, ?_, ?_, run?_byOffsets start, OffsetScan.ofText?_eq line text report⟩
  · rw [offset_run]
    exact Nat.zero_add _
  · obtain ⟨stack, whole, same, shaped, kind⟩ := invariant.sound.shape invariant.settled
    have sound : Sound line text rest (stack ++ [whole]) := by
      rw [← same]
      exact invariant.sound
    have inside : ∀ o ∈ stack, o ∈ s.openTokens := by
      intro o member
      rw [openTokens, same]
      exact List.mem_append_left [whole] member
    refine ⟨stack, whole, same, kind, shaped.ne_nil, shaped, fun o member indent => ?_,
      (List.pairwise_append.1 sound.starts).1, fun o member => ⟨?_, ?_⟩⟩
    · obtain ⟨whole', alone⟩ := sound.indent_on_top (List.mem_append_left [whole] member) indent
      have split : stack ++ [whole] = [o] ++ [whole'] := alone
      exact (List.append_inj' split rfl).1
    · rw [place]
      exact invariant.sound.start_le (inside o member)
    · obtain ⟨before, behind, whole_text, first⟩ :=
        invariant.sound.standing_mem invariant.reads (inside o member)
      exact ⟨before, o.read.reverse ++ behind, by rw [whole_text, List.append_assoc], first⟩
  · refine ⟨fun kind => ?_, ?_, invariant.sound.not_semantic invariant.settled⟩
    · have settled := invariant.settled
      simp [kind, Kind.isFilled] at settled
    · rw [Kind.isBracket, Kind.bracket?_of_not_isFilled invariant.settled]
      rfl

/-- A cut inside a character fails. -/
example : (OffsetScan.start 0 ['é']).close? 1 = none := rfl

end LineTree
