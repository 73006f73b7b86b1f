import LineTree.Proofs.Stack

/-!
# The steps of a scan

What one character can do to the stack of open tokens, and what becomes known on the way. Every
invariant of a scan is proved by cases on these moves. Main statement: `Scan.move_step`.
-/
namespace LineTree

theorem Kind.begunBy_eq_brackets_iff {previous : Kind} {c : Char} {b : Bracket} :
    previous.begunBy c = .brackets b ↔ c = b.opener := by
  constructor
  · intro same
    unfold Kind.begunBy at same
    split at same
    · cases same
    · split at same
      · cases same
      · split at same
        · split at same <;> cases same
        · split at same
          · cases same
          · split at same
            · next found opener =>
              obtain rfl := Kind.brackets.inj same
              exact Bracket.ofOpener?_eq_some_iff.1 opener
            · split at same <;> cases same
  · rintro rfl
    cases b <;> rfl

theorem Kind.bracket?_eq_some_iff {k : Kind} {b : Bracket} : k.bracket? = some b ↔ k = .brackets b := by
  cases k <;> simp [Kind.bracket?]

theorem Kind.begunBy_closer (previous : Kind) (b : Bracket) :
    previous.begunBy b.closer = .unresolved := by
  cases b <;> rfl

/-- An empty whitespace token, opened behind a token that is complete. -/
def OpenToken.gap (start : Nat) : OpenToken := { kind := .whitespace, start }

/-- A token that has read its first character. -/
def OpenToken.begun (kind : Kind) (start : Nat) (c : Char) : OpenToken := { kind, start, read := [c] }

open OpenToken

/-- What the next character does to the open tokens, given from the inside out, and the events on
the way, in order. -/
inductive Move (line offset : Nat) (c : Char) :
    List OpenToken → List OpenToken → List ScanEvent → Prop
  | extend {o : OpenToken} {below : List OpenToken} (effect : o.kind.effect c = .extend) :
      Move line offset c (o :: below) (o.push c :: below) []
  | become {o : OpenToken} {below : List OpenToken} {k : Kind}
      (effect : o.kind.effect c = .become k) :
      Move line offset c (o :: below) ({ o with kind := k }.push c :: below) []
  | nest {o : OpenToken} {below : List OpenToken} {k : Kind} (effect : o.kind.effect c = .nest k) :
      Move line offset c (o :: below) (begun k offset c :: o :: below) []
  | endAfter {o parent : OpenToken} {below : List OpenToken}
      (effect : o.kind.effect c = .endAfter) :
      Move line offset c (o :: parent :: below) (parent.absorb (o.push c) line :: below)
        [.closed ((o.push c).toToken line)]
  | endWithGap {o parent : OpenToken} {below : List OpenToken}
      (effect : o.kind.effect c = .endWithGap) :
      Move line offset c (o :: parent :: below)
        (gap (offset + c.utf8Size) :: parent.absorb (o.push c) line :: below)
        [.closed ((o.push c).toToken line)]
  /-- A closing bracket ends the group around the token that ends in front of it. -/
  | closeGroup {o group outer : OpenToken} {below : List OpenToken} {b : Bracket}
      (effect : o.kind.effect c = .endBefore) (kind : group.kind = .brackets b)
      (closer : c = b.closer) :
      Move line offset c (o :: group :: outer :: below)
        (gap (offset + c.utf8Size) :: outer.absorb ((group.absorb o line).push c) line :: below)
        [.closed (o.toToken line), .closed (((group.absorb o line).push c).toToken line)]
  /-- A closing bracket that does not fit the group around it is a token of its own. -/
  | mismatch {o parent : OpenToken} {below : List OpenToken} {b : Bracket}
      (effect : o.kind.effect c = .endBefore) (closer : c = b.closer)
      (other : parent.kind ≠ .brackets b) :
      Move line offset c (o :: parent :: below)
        (begun .unresolved offset c :: parent.absorb o line :: below)
        [.closed (o.toToken line), .reported
          ((Problem.mismatched b parent.kind.bracket?).diagnostic line offset (offset + c.utf8Size))]
  | openGroup {o parent : OpenToken} {below : List OpenToken} {b : Bracket}
      (effect : o.kind.effect c = .endBefore) (opener : c = b.opener) :
      Move line offset c (o :: parent :: below)
        (gap (offset + c.utf8Size) :: begun (.brackets b) offset c :: parent.absorb o line :: below)
        [.closed (o.toToken line)]
  | begin {o parent : OpenToken} {below : List OpenToken} (effect : o.kind.effect c = .endBefore)
      (closer : Bracket.ofCloser? c = none) (opener : Bracket.ofOpener? c = none) :
      Move line offset c (o :: parent :: below)
        (begun (o.kind.begunBy c) offset c :: parent.absorb o line :: below)
        [.closed (o.toToken line)]

namespace Scan

theorem line_close (s : Scan) : s.close.line = s.line := by
  unfold close
  split <;> rfl

theorem line_closeBracket (s : Scan) (b : Bracket) (c : Char) :
    (s.closeBracket b c).line = s.line := by
  unfold closeBracket
  split
  · exact line_close _
  · rfl

theorem line_beginWith (s : Scan) (previous : Kind) (c : Char) :
    (s.beginWith previous c).line = s.line := by
  simp only [beginWith]
  split <;> rfl

theorem line_step (s : Scan) (c : Char) : (s.step c).line = s.line := by
  unfold step
  split
  · rfl
  · split
    · rw [line_closeBracket, line_close]
    · rw [line_beginWith, line_close]
  · exact line_close _
  · exact line_close _
  · rfl
  · rfl

/-- The innermost group is the innermost token, unless that is the line. -/
theorem innermostBracket?_eq {s : Scan} (bottom : s.top.kind = .line → s.below = [])
    (filled : s.top.kind.isFilled) : s.innermostBracket? = s.top.kind.bracket? := by
  unfold innermostBracket?
  rw [openTokens, List.findSome?_cons]
  cases kind : s.top.kind with
  | line => simp [Kind.bracket?, bottom kind]
  | brackets b => rfl
  | _ =>
    rw [kind] at filled
    cases filled

theorem begunBy_isBracket {previous : Kind} {c : Char} (opener : Bracket.ofOpener? c = none) :
    (previous.begunBy c).isBracket = false := by
  cases kind : previous.begunBy c with
  | brackets b =>
    have same := Bracket.ofOpener?_eq_some_iff.2 (Kind.begunBy_eq_brackets_iff.1 kind)
    rw [opener] at same
    cases same
  | _ => rfl

variable {line offset : Nat} {c : Char} {o parent : OpenToken} {below : List OpenToken}
  {before : List ScanEvent} {text rest : Text}

/-- If the innermost token ends in front of the character, the step is one of four moves. -/
theorem move_endBefore (effect : o.kind.effect c = .endBefore) (within : o.Within line parent)
    (around : Sound line text rest (parent :: below)) :
    let s : Scan := { line, offset, top := o, below := parent :: below, events := before }
    ∃ events, Move line offset c (o :: parent :: below) (s.step c).openTokens events ∧
      (s.step c).events = events.reverse ++ before := by
  intro s
  have filled := within.filled_of_endBefore effect
  have closed : s.close = { s with
      top := parent.absorb o line
      below
      events := .closed (o.toToken line) :: before } := rfl
  have top : s.close.top.kind = parent.kind := rfl
  cases closer : Bracket.ofCloser? c with
  | some b =>
    obtain rfl := Bracket.ofCloser?_eq_some_iff.1 closer
    have step : s.step b.closer = s.close.closeBracket b b.closer := by
      simp only [step, s, effect, closer]
    rw [step, closeBracket, top]
    by_cases kind : parent.kind = .brackets b
    · rw [if_pos kind]
      cases below with
      | nil =>
        have bottom := around.bottom.2 rfl
        simp [kind] at bottom
      | cons outer below => exact ⟨_, .closeGroup effect kind rfl, rfl⟩
    · rw [if_neg kind]
      have innermost : s.close.innermostBracket? = parent.kind.bracket? :=
        innermostBracket?_eq (fun line => around.bottom.1 line) filled
      rw [innermost]
      exact ⟨_, .mismatch effect rfl kind, rfl⟩
  | none =>
    have step : s.step c = s.close.beginWith o.kind c := by
      simp only [step, s, effect, closer]
    rw [step]
    cases opener : Bracket.ofOpener? c with
    | some b =>
      obtain rfl := Bracket.ofOpener?_eq_some_iff.1 opener
      have kind : o.kind.begunBy b.opener = .brackets b := Kind.begunBy_eq_brackets_iff.2 rfl
      simp only [beginWith, kind]
      exact ⟨_, .openGroup effect rfl, rfl⟩
    | none =>
      simp only [beginWith, begunBy_isBracket opener]
      exact ⟨_, .begin effect closer opener, rfl⟩

/-- Whatever the character, the step is one of the moves. -/
theorem move_step {s : Scan} (sound : Sound s.line text rest s.openTokens)
    (settled : s.top.kind.isFilled = false) :
    ∃ events, Move s.line s.offset c s.openTokens (s.step c).openTokens events ∧
      (s.step c).events = events.reverse ++ s.events := by
  obtain ⟨line, offset, o, below, before⟩ := s
  cases sound with
  | line kind _ _ => simp [show o.kind = .line from kind, Kind.isFilled] at settled
  | @inside _ parent below within _ around =>
    cases effect : o.kind.effect c with
    | endBefore => exact move_endBefore effect within around
    | extend =>
      simp only [step, effect]
      exact ⟨_, .extend effect, rfl⟩
    | endWithGap =>
      simp only [step, effect]
      exact ⟨_, .endWithGap effect, rfl⟩
    | endAfter =>
      simp only [step, effect]
      exact ⟨_, .endAfter effect, rfl⟩
    | nest kind =>
      simp only [step, effect]
      exact ⟨_, .nest effect, rfl⟩
    | become kind =>
      simp only [step, effect]
      exact ⟨_, .become effect, rfl⟩

end Scan
end LineTree
