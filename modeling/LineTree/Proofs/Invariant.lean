import LineTree.Scan.Lemmas
import LineTree.Proofs.Step

/-!
# The invariant of a scan

At every point of a line the open tokens form a sound stack with neither a group nor the line on
top, and what they have read is the part of the line in front of the point. Main statements:
`Move.sound`, `Scan.invariant_step`, `Scan.invariant_run`.
-/
namespace LineTree

open OpenToken

variable {line offset : Nat} {text rest : Text} {c : Char}

namespace Kind

theorem begunBy_isItem (previous : Kind) (c : Char) : (previous.begunBy c).isItem := by
  unfold begunBy
  split
  · rfl
  · split
    · rfl
    · split
      · split <;> rfl
      · split
        · rfl
        · split
          · rfl
          · split <;> rfl

theorem isItem_not_isFilled_of_opener {previous : Kind} (opener : Bracket.ofOpener? c = none) :
    (previous.begunBy c).isFilled = false := by
  have item := begunBy_isItem previous c
  have group : (previous.begunBy c).isBracket = false := Scan.begunBy_isBracket opener
  cases kind : previous.begunBy c with
  | line => simp [kind, isItem] at item
  | brackets b => simp [kind, isBracket, bracket?] at group
  | _ => rfl

end Kind

theorem Bracket.closer_injective {a b : Bracket} (h : a.closer = b.closer) : a = b := by
  have found := Bracket.ofCloser?_eq_some_iff.2 h
  rw [Bracket.ofCloser?_eq_some_iff.2 (rfl : a.closer = a.closer)] at found
  exact Option.some.inj found

namespace OpenToken

/-- Behind its first child a group or line may get any item. -/
theorem Within.of_item {o parent : OpenToken} (filled : parent.kind.isFilled)
    (nonempty : parent.done ≠ []) (item : o.kind.isItem)
    (foreign : o.kind = .unresolved → ∀ b, parent.kind = .brackets b → o.read ≠ [b.closer])
    (start : o.start = parent.start + Text.byteLength parent.read) : o.Within line parent := by
  obtain ⟨kind, first, read, done⟩ := parent
  have later : done.reverse ≠ [] := by simpa using nonempty
  have own : (o.toToken line).kind.isItem := item
  refine ⟨?_, start⟩
  cases kind with
  | line => simpa only [Kind.Admits, if_neg later] using own
  | brackets b =>
    refine ⟨by simpa only [if_neg later] using own, fun unresolved same => ?_⟩
    exact foreign unresolved b rfl (by simpa [toToken] using congrArg List.reverse same)
  | _ => cases filled

/-- A literal may get an escape at any place, a comment its content once. -/
theorem Within.of_nest {o : OpenToken} {k : Kind} (grows : o.Grows (c :: rest))
    (effect : o.kind.effect c = .nest k) (start : offset = o.start + Text.byteLength o.read) :
    (OpenToken.begun k offset c).Within line o := by
  refine ⟨?_, start⟩
  have pending := grows.pending
  rcases Kind.effect_nest effect with ⟨q, kind, -, rfl⟩ | ⟨kind, slash, rfl⟩ | ⟨kind, rfl⟩
  · rw [kind]
    rfl
  · rw [kind] at pending ⊢
    exact ⟨pending.resolve_right (by simp), rfl, by simpa [OpenToken.begun, toToken] using slash⟩
  · rw [kind] at pending ⊢
    exact ⟨pending.resolve_right (by simp), rfl⟩

theorem Within.stop_absorb {o parent : OpenToken} (h : o.Within line parent) :
    (parent.absorb o line).start + Text.byteLength (parent.absorb o line).read =
      o.start + Text.byteLength o.read := by
  simp only [OpenToken.absorb, Text.byteLength_append, h.start]
  omega

theorem Steady.fresh {o : OpenToken} (grows : o.Grows rest) (done : o.done = []) :
    o.Steady line text rest := ⟨grows, by simp [done]⟩

end OpenToken

namespace Sound

variable {o parent : OpenToken} {below : List OpenToken}

theorem stop (h : Sound line text rest (o :: below)) :
    Text.byteLength ((o :: below).flatMap (·.read)) = o.start + Text.byteLength o.read := by
  rw [List.flatMap_cons, Text.byteLength_append, h.place]
  omega

/-- Where the innermost token stands in the line. -/
theorem standing (h : Sound line text rest (o :: below)) {after : Text}
    (reads : text = ((o :: below).flatMap (·.read)).reverse ++ after) :
    ∃ before, text = before ++ o.read.reverse ++ after ∧ Text.byteLength before = o.start := by
  refine ⟨(below.flatMap (·.read)).reverse, ?_, ?_⟩
  · rw [reads, List.flatMap_cons, List.reverse_append]
  · rw [Text.byteLength_reverse, h.place]

/-- A whitespace token can be opened behind a complete token. -/
theorem gap (h : Sound line text rest (o :: below)) (filled : o.kind.isFilled)
    (nonempty : o.done ≠ []) (start : offset = o.start + Text.byteLength o.read) :
    Sound line text rest (OpenToken.gap offset :: o :: below) :=
  .inside (.of_item filled nonempty rfl (fun unresolved => by cases unresolved) start)
    (.fresh (grows_gap offset rest) rfl) h

end Sound

namespace Sound

variable {o parent : OpenToken} {below : List OpenToken}

theorem within (h : Sound line text rest (o :: parent :: below)) : o.Within line parent := by
  cases h with
  | inside within _ _ => exact within

theorem around (h : Sound line text rest (o :: parent :: below)) :
    Sound line text rest (parent :: below) := by
  cases h with
  | inside _ _ around => exact around

/-- The innermost token ends in front of a character. -/
theorem endBefore (h : Sound line text (c :: rest) (o :: parent :: below))
    (effect : o.kind.effect c = .endBefore) (hollow : o.kind.isFilled = false)
    (reads : text = ((o :: parent :: below).flatMap (·.read)).reverse ++ c :: rest) :
    Sound line text (c :: rest) (parent.absorb o line :: below) := by
  obtain ⟨before, place, start⟩ := h.standing reads
  have token : (o.toToken line).Conforms line text :=
    h.steady.grows.conforms_endBefore effect hollow place start
  refine h.around.absorb h.within token h.steady.inside fun content => ?_
  exact ((Kind.effect_endBefore effect).2.2.2.2 content).elim

/-- The innermost token ends with a character of its own. -/
theorem endWith (h : Sound line text (c :: rest) (o :: parent :: below))
    (token : ((o.push c).toToken line).Conforms line text) (content : o.kind ≠ .commentContent) :
    Sound line text rest (parent.absorb (o.push c) line :: below) :=
  h.around.step.absorb (h.within.push h.steady.grows) token h.steady.inside
    fun same => (content same).elim

/-- The innermost token ends with a character of its own, and a whitespace token follows. -/
theorem endWithGap (h : Sound line text (c :: rest) (o :: parent :: below))
    (token : ((o.push c).toToken line).Conforms line text) (content : o.kind ≠ .commentContent)
    (filled : parent.kind.isFilled) (here : offset = o.start + Text.byteLength o.read) :
    Sound line text rest
      (OpenToken.gap (offset + c.utf8Size) :: parent.absorb (o.push c) line :: below) := by
  refine (h.endWith token content).gap filled (by simp [OpenToken.absorb]) ?_
  rw [(h.within.push h.steady.grows).stop_absorb, here]
  simp only [OpenToken.push, Text.byteLength_cons]
  omega

/-- A token begins behind the children that a group or the line already has. -/
theorem begun (h : Sound line text (c :: rest) (parent :: below)) (filled : parent.kind.isFilled)
    (nonempty : parent.done ≠ []) {k : Kind} (item : k.isItem)
    (grows : (OpenToken.begun k offset c).Grows rest)
    (foreign : k = .unresolved → ∀ b, parent.kind = .brackets b → c ≠ b.closer)
    (start : offset = parent.start + Text.byteLength parent.read) :
    Sound line text rest (OpenToken.begun k offset c :: parent :: below) := by
  refine .inside (.of_item filled nonempty item (fun unresolved b kind same => ?_) start)
    (.fresh grows rfl) h.step
  exact foreign unresolved b kind (List.cons.inj same).1

end Sound

/-- The moves keep the stack sound. -/
theorem Move.sound {stack next : List OpenToken} {events : List ScanEvent}
    (move : Move line offset c stack next events) (sound : Sound line text (c :: rest) stack)
    (settled : ∀ o ∈ stack.head?, o.kind.isFilled = false)
    (here : offset = Text.byteLength (stack.flatMap (·.read)))
    (reads : text = (stack.flatMap (·.read)).reverse ++ c :: rest) :
    Sound line text rest next := by
  cases move with
  | @extend o below effect =>
    cases sound with
    | line kind _ _ => simp [kind, Kind.isFilled] at settled
    | inside within steady around =>
      exact .inside (within.push steady.grows) ⟨steady.grows.extend effect, steady.inside⟩
        around.step
  | @become o below k effect =>
    cases sound with
    | line kind _ _ => simp [kind, Kind.isFilled] at settled
    | inside within steady around =>
      exact .inside (within.become effect) ⟨steady.grows.become effect, steady.inside⟩ around.step
  | @nest o below k effect =>
    have start : offset = o.start + Text.byteLength o.read := here.trans sound.stop
    have within : (OpenToken.begun k offset c).Within line o :=
      .of_nest sound.steady.grows effect start
    exact .inside within (.fresh (grows_nest effect offset rest) rfl) sound.step
  | @endAfter o parent below effect =>
    have kind := Kind.effect_endAfter effect
    obtain ⟨before, place, start⟩ := sound.standing reads
    exact sound.endWith (sound.steady.grows.conforms_escape kind place start) (by simp [kind])
  | @endWithGap o parent below effect =>
    obtain ⟨before, place, start⟩ := sound.standing reads
    have inside : ∀ d ∈ o.done, d.HasForm text := fun d member =>
      (sound.steady.inside d member d d.self_mem_listing).form
    have escape : o.kind ≠ .escape ∧ o.kind ≠ .commentContent := by
      rcases Kind.effect_endWithGap effect with ⟨kind, -⟩ | ⟨q, kind, -⟩ <;> simp [kind]
    exact sound.endWithGap (sound.steady.grows.conforms_endWithGap effect inside place start)
      escape.2 (sound.within.filled escape.1 escape.2) (here.trans sound.stop)
  | @closeGroup o group outer below b effect kind closer =>
    have closed := sound.endBefore effect (settled o rfl) reads
    have whole : text = ((group.absorb o line :: outer :: below).flatMap (·.read)).reverse ++
        c :: rest := by
      simpa [OpenToken.absorb] using reads
    obtain ⟨before, place, start⟩ := closed.standing whole
    have token : (((group.absorb o line).push c).toToken line).Conforms line text :=
      closed.steady.grows.conforms_group kind closer (by simp [OpenToken.absorb]) place start
    have group_kind : (group.absorb o line).kind = .brackets b := kind
    have filled := closed.within.filled (by simp [group_kind]) (by simp [group_kind])
    refine closed.endWithGap token (by simp [group_kind]) filled ?_
    rw [sound.within.stop_absorb, here, sound.stop]
  | @mismatch o parent below b effect closer other =>
    have closed := sound.endBefore effect (settled o rfl) reads
    have filled := sound.within.filled_of_endBefore effect
    have grows : (OpenToken.begun .unresolved offset c).Grows rest := by
      have first := grows_begunBy o.kind c offset rest
      rwa [closer, Kind.begunBy_closer, ← closer] at first
    refine closed.begun filled (by simp [OpenToken.absorb]) rfl grows
      (fun _ b' kind same => ?_) ?_
    · rw [Bracket.closer_injective (closer.symm.trans same)] at other
      exact other kind
    · rw [sound.within.stop_absorb, here, sound.stop]
  | @openGroup o parent below b effect opener =>
    have closed := sound.endBefore effect (settled o rfl) reads
    have filled := sound.within.filled_of_endBefore effect
    have grows : (OpenToken.begun (.brackets b) offset c).Grows rest := by
      have first := grows_begunBy o.kind c offset rest
      rwa [Kind.begunBy_eq_brackets_iff.2 opener] at first
    have group := closed.begun filled (by simp [OpenToken.absorb]) rfl
      grows (fun unresolved => by cases unresolved)
      (by rw [sound.within.stop_absorb, here, sound.stop])
    refine .inside ⟨⟨rfl, fun unresolved => by cases unresolved⟩, ?_⟩
      (.fresh (grows_gap _ rest) rfl) group
    simp [OpenToken.gap, OpenToken.begun]
  | @begin o parent below effect closer opener =>
    have closed := sound.endBefore effect (settled o rfl) reads
    have filled := sound.within.filled_of_endBefore effect
    refine closed.begun filled (by simp [OpenToken.absorb])
      (Kind.begunBy_isItem _ _) (grows_begunBy o.kind c offset rest) (fun _ b _ same => ?_) ?_
    · rw [Bracket.ofCloser?_eq_some_iff.2 same] at closer
      cases closer
    · rw [sound.within.stop_absorb, here, sound.stop]

/-- An escape stands in a quoted literal. -/
theorem OpenToken.Within.quoted_of_escape {o parent : OpenToken} (h : o.Within line parent)
    (kind : o.kind = .escape) : ∃ q, parent.kind = .quoted q := by
  obtain ⟨outer, start, read, done⟩ := parent
  have admits := h.admits
  have token : (o.toToken line).kind = .escape := kind
  cases outer with
  | quoted q => exact ⟨q, rfl⟩
  | line =>
    simp only [Kind.Admits, token] at admits
    split at admits <;> cases admits
  | brackets b =>
    have first := admits.1
    simp only [token] at first
    split at first <;> cases first
  | comment | docComment => simp [Kind.Admits, token] at admits
  | _ => exact admits.elim

/-- The moves leave neither a group nor the line on top. -/
theorem Move.settled {stack next : List OpenToken} {events : List ScanEvent}
    (move : Move line offset c stack next events) (sound : Sound line text rest stack)
    (settled : ∀ o ∈ stack.head?, o.kind.isFilled = false) :
    ∀ o ∈ next.head?, o.kind.isFilled = false := by
  intro top first
  cases move with
  | @extend o below effect =>
    obtain rfl := Option.some.inj first
    exact settled o rfl
  | @become o below k effect =>
    obtain rfl := Option.some.inj first
    rcases Kind.effect_become effect with ⟨-, -, rfl⟩ | ⟨-, -, rfl⟩ | ⟨-, -, rfl⟩ | ⟨-, -, rfl⟩ <;> rfl
  | @nest o below k effect =>
    obtain rfl := Option.some.inj first
    rcases Kind.effect_nest effect with ⟨q, -, -, rfl⟩ | ⟨-, -, rfl⟩ | ⟨-, rfl⟩ <;> rfl
  | @endAfter o parent below effect =>
    obtain rfl := Option.some.inj first
    obtain ⟨q, kind⟩ := sound.within.quoted_of_escape (Kind.effect_endAfter effect)
    simp [OpenToken.absorb, kind, Kind.isFilled]
  | endWithGap | closeGroup | mismatch | openGroup =>
    obtain rfl := Option.some.inj first
    rfl
  | begin effect closer opener =>
    obtain rfl := Option.some.inj first
    exact Kind.isItem_not_isFilled_of_opener opener

namespace Scan

/-- What holds of a scan of the line `text` that has still to read `rest`. -/
structure Invariant (line : Nat) (text rest : Text) (s : Scan) : Prop where
  line_eq : s.line = line
  reads : text = s.consumed ++ rest
  offset_eq : s.offset = Text.byteLength s.consumed
  sound : Sound line text rest s.openTokens
  settled : s.top.kind.isFilled = false

theorem invariant_start (line : Nat) (text : Text) : Invariant line text text (start line) where
  line_eq := rfl
  reads := rfl
  offset_eq := rfl
  sound := by
    have indent : ({ kind := .indent, start := 0 } : OpenToken).Grows text :=
      .of_spelled rfl (by simp [Kind.Spells]) trivial
    have whole : ({ kind := .line, start := 0 } : OpenToken).Grows text :=
      .of_front rfl rfl trivial
    exact .inside ⟨rfl, rfl⟩ (.fresh indent rfl) (.line rfl rfl (.fresh whole rfl))
  settled := rfl

/-- The next character makes one of the moves. -/
theorem Invariant.move {s : Scan} (h : Invariant line text (c :: rest) s) :
    ∃ events, Move line s.offset c s.openTokens (s.step c).openTokens events ∧
      (s.step c).events = events.reverse ++ s.events := by
  obtain rfl := h.line_eq
  exact move_step h.sound h.settled

theorem Invariant.settled_head {s : Scan} (h : Invariant line text rest s) :
    ∀ o ∈ s.openTokens.head?, o.kind.isFilled = false := by
  intro o first
  obtain rfl := Option.some.inj first
  exact h.settled

theorem invariant_step {s : Scan} (h : Invariant line text (c :: rest) s) :
    Invariant line text rest (s.step c) := by
  obtain ⟨events, move, -⟩ := h.move
  refine ⟨(line_step s c).trans h.line_eq, ?_, ?_, ?_, ?_⟩
  · rw [consumed_step, List.append_assoc, List.singleton_append, ← h.reads]
  · rw [offset_step, consumed_step, h.offset_eq, Text.byteLength_append, Text.byteLength_cons,
      Text.byteLength_nil, Nat.add_zero]
  · refine move.sound h.sound h.settled_head ?_ h.reads
    rw [h.offset_eq, consumed, Text.byteLength_reverse]
  · exact move.settled h.sound h.settled_head _ rfl

/-- The invariant holds along every run. -/
theorem invariant_run {s : Scan} {read : Text} (h : Invariant line text (read ++ rest) s) :
    Invariant line text rest (s.run read) := by
  induction read generalizing s with
  | nil => exact h
  | cons c read ih => exact ih (invariant_step h)

/-- The first run of a scan reads the whole line. -/
theorem invariant_whole (line : Nat) (text : Text) :
    Invariant line text (text ++ []) (start line) := by
  simpa using invariant_start line text

/-- At the end of the line the invariant holds with nothing left to read. -/
theorem invariant_end (line : Nat) (text : Text) :
    Invariant line text [] ((start line).run text) :=
  invariant_run (invariant_whole line text)

end Scan
end LineTree
