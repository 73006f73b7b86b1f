import Mathlib.Data.List.Chain
import LineTree.Proofs.Finish

/-!
# Neighbours in a line

Which tokens may stand directly behind one another in a line or group: behind a token that its own
last character has ended stands whitespace, even if empty, and nothing else is empty; a name is a
label behind a label mark and nowhere else. Every step of a scan keeps it so. Main statements:
`Move.ordered`, `ScannedLine.neighbourly`.
-/
namespace LineTree

variable {line offset : Nat} {text rest : Text} {c : Char}

namespace Laid

variable {outside : Char → Prop} {first : Nat} {body more : Text} {t : Token} {tokens : List Token}

/-- The first of the tokens stands at the front of the text, or a free character does. -/
theorem cons_cases (h : Laid outside first body (t :: tokens)) :
    (∃ x behind, body = x :: behind ∧ outside x ∧
      Laid outside (first + x.utf8Size) behind (t :: tokens)) ∨
    ∃ behind, body = t.literal ++ behind ∧ t.start = first ∧ Laid outside t.stop behind tokens := by
  cases h with
  | char free behind => exact Or.inl ⟨_, _, rfl, free, behind⟩
  | token placed behind => exact Or.inr ⟨_, rfl, placed, behind⟩

/-- Characters behind the last token are free. -/
theorem free_of_append (h : Laid outside first body tokens)
    (longer : Laid outside first (body ++ [c]) tokens) : outside c := by
  induction h with
  | nil first =>
    generalize same : [] ++ [c] = whole at longer
    cases longer with
    | nil => cases same
    | char free _ =>
      obtain ⟨rfl, -⟩ := List.cons.inj same
      exact free
  | @char first x body tokens _ rest ih =>
    generalize same : x :: body ++ [c] = whole at longer
    cases longer with
    | nil => cases same
    | char _ behind =>
      obtain ⟨rfl, rfl⟩ := List.cons.inj same
      exact ih behind
    | token placed _ =>
      have bound := (rest.bounds (List.mem_cons_self ..)).1
      have size := x.utf8Size_pos
      omega
  | @token first t body tokens placed _ ih =>
    rcases longer.cons_cases with ⟨x, behind, -, -, laid⟩ | ⟨behind, same, -, laid⟩
    · have bound := (laid.bounds (List.mem_cons_self ..)).1
      have size := x.utf8Size_pos
      omega
    · rw [List.append_assoc] at same
      rw [← List.append_cancel_left same] at laid
      exact ih laid

end Laid

/-- The last character of a frame never stands between the tokens in it. -/
theorem Kind.not_free_last {k : Kind} {f : Frame} {last : Char} (framed : k.frame? = some f)
    (complete : f.last? = some last) : ¬ f.free last := by
  cases k with
  | quoted q =>
    obtain rfl := Option.some.inj framed
    obtain rfl : q.mark = last := Option.some.inj complete
    exact fun plain => plain.2 rfl
  | line | brackets _ | comment | docComment =>
    obtain rfl := Option.some.inj framed
    exact id
  | _ => cases framed

namespace Token

/-- The token's own last character has ended it: a group has its closing bracket, a quoted literal
its second mark, or a number its unit. -/
def Ended (t : Token) : Prop :=
  (∃ f last body, t.kind.frame? = some f ∧ f.last? = some last ∧
    Laid f.free (t.start + Text.byteLength f.front) body t.children ∧
    t.literal = f.front ++ body ++ [last]) ∨
  (t.kind = .number ∧ ∃ digits unit, t.literal = digits ++ [unit] ∧ isUnitSuffix unit)

/-- The second token may stand directly behind the first one. -/
structure Follows (a b : Token) : Prop where
  gap : a.Ended → b.kind = .whitespace
  solid : ¬ a.Ended → b.literal ≠ []
  label : b.kind = .label → a.kind = .labelMark
  name : b.kind = .identifier → a.kind ≠ .labelMark

/-- In a line or group each token may stand behind the one in front of it, and the whitespace behind
a token that has ended is there even if that is the last one. -/
def Neighbourly (t : Token) : Prop :=
  t.kind.isFilled → t.children.IsChain Follows ∧ ∀ last ∈ t.children.getLast?, ¬ last.Ended

theorem neighbourly_of_not_filled {t : Token} (hollow : t.kind.isFilled = false) :
    t.Neighbourly := fun filled => absurd (hollow.symm.trans filled) (by simp)

theorem not_ended_of_kind {t : Token} (frame : ∀ f, t.kind.frame? = some f → f.last? = none)
    (kind : t.kind ≠ .number) : ¬ t.Ended := by
  rintro (⟨f, last, body, framed, complete, -⟩ | ⟨number, -⟩)
  · rw [frame f framed] at complete
    cases complete
  · exact kind number

end Token

open Token OpenToken

namespace OpenToken

variable {o parent : OpenToken}

/-- A token that still takes characters has not ended. -/
theorem Grows.not_ended (h : o.Grows rest) : ¬ (o.toToken line).Ended := by
  rintro (⟨f, last, body, framed, complete, laid, literal⟩ | ⟨kind, digits, unit, literal, suffix⟩)
  · obtain ⟨whole, read, all⟩ := h.framed f framed
    have same : whole = body ++ [last] := by
      have both : f.front ++ whole = f.front ++ (body ++ [last]) := by
        rw [← read, ← List.append_assoc, ← literal]
        rfl
      exact List.append_cancel_left both
    rw [same] at all
    exact Kind.not_free_last framed complete (laid.free_of_append all)
  · have pending := h.pending
    rw [show o.kind = .number from kind] at pending
    have digit := pending unit (by rw [show o.read.reverse = digits ++ [unit] from literal]; simp)
    simp [Kind.not_isNumberChar_of_isUnitSuffix suffix] at digit

theorem Grows.ended_last (h : o.Grows rest) {f : Frame} (framed : o.kind.frame? = some f)
    (last : f.last? = some c) : ((o.push c).toToken line).Ended := by
  obtain ⟨body, read, laid⟩ := h.framed f framed
  refine Or.inl ⟨f, c, body, framed, last, laid, ?_⟩
  rw [toToken, OpenToken.push, List.reverse_cons, read]

/-- A unit ends a number, and a mark its literal. -/
theorem Grows.ended_endWithGap (h : o.Grows rest) (effect : o.kind.effect c = .endWithGap) :
    ((o.push c).toToken line).Ended := by
  rcases Kind.effect_endWithGap effect with ⟨kind, suffix⟩ | ⟨q, kind, mark⟩
  · exact Or.inr ⟨kind, o.read.reverse, c, by simp [toToken, OpenToken.push], suffix⟩
  · exact h.ended_last (congrArg Kind.frame? kind) (by rw [mark])

/-- The open token may become the neighbour of the last token that is closed in its group. -/
def Behind (line : Nat) (o parent : OpenToken) : Prop :=
  parent.kind.isFilled → ∀ last ∈ parent.done.head?, last.Follows (o.toToken line)

/-- What is closed inside the token is in order. -/
structure Orderly (o : OpenToken) : Prop where
  chain : o.kind.isFilled → o.done.reverse.IsChain Follows
  inside : ∀ d ∈ o.done, ∀ u ∈ d.listing, u.Neighbourly

/-- Reading on changes nothing about the neighbour. -/
theorem Behind.grow {next : OpenToken} (h : o.Behind line parent) (kind : next.kind = o.kind)
    (longer : o.read ≠ [] → next.read ≠ []) : next.Behind line parent := by
  intro filled last member
  have follows := h filled last member
  refine ⟨fun ended => kind.trans (follows.gap ended), fun open_ended => ?_,
    fun label => follows.label (kind.symm.trans label),
    fun name => follows.name (kind.symm.trans name)⟩
  have old := follows.solid open_ended
  simpa [toToken] using longer (by simpa [toToken] using old)

theorem Behind.push (h : o.Behind line parent) : (o.push c).Behind line parent :=
  h.grow rfl fun _ => by simp [OpenToken.push]

theorem Behind.absorb {child : OpenToken} (h : o.Behind line parent) :
    (o.absorb child line).Behind line parent :=
  h.grow rfl fun nonempty => by simp [OpenToken.absorb, nonempty]

theorem behind_hollow (hollow : parent.kind.isFilled = false) : o.Behind line parent :=
  fun filled => absurd (hollow.symm.trans filled) (by simp)

theorem behind_first (first : parent.done = []) : o.Behind line parent :=
  fun _ last member => by simp [first] at member

theorem orderly_of_childless (h : o.done = []) : o.Orderly :=
  ⟨fun _ => by simp [h], by simp [h]⟩

/-- The innermost token ends, and becomes a child of the one around it. -/
theorem Orderly.absorb (h : parent.Orderly) (inner : o.Orderly) (behind : o.Behind line parent)
    (settled : o.kind.isFilled → ∀ last ∈ o.done.head?, ¬ last.Ended) :
    (parent.absorb o line).Orderly where
  chain := fun filled => by
    rw [OpenToken.absorb, List.reverse_cons]
    refine List.isChain_append.2 ⟨h.chain filled, by simp, fun last final next first => ?_⟩
    obtain rfl : o.toToken line = next := by simpa using first
    exact behind filled last (by simpa using final)
  inside := fun d member u listed => by
    rcases List.mem_cons.1 member with rfl | earlier
    · rcases mem_listing_iff.1 listed with rfl | ⟨t, child, deeper⟩
      · refine fun filled => ⟨inner.chain filled, fun last final => ?_⟩
        exact settled filled last (by simpa [toToken] using final)
      · exact inner.inside t (by simpa [toToken] using child) u deeper
    · exact h.inside d earlier u listed

end OpenToken

/-- The open tokens, from the inside out: each is in order, and so is its place behind what is closed
in the one around it. -/
inductive Ordered (line : Nat) : List OpenToken → Prop
  | line {o : OpenToken} (orderly : o.Orderly) : Ordered line [o]
  | inside {o parent : OpenToken} {below : List OpenToken} (behind : o.Behind line parent)
      (orderly : o.Orderly) (around : Ordered line (parent :: below)) :
      Ordered line (o :: parent :: below)

namespace Ordered

variable {o parent : OpenToken} {below : List OpenToken}

theorem orderly (h : Ordered line (o :: below)) : o.Orderly := by
  cases h with
  | line orderly => exact orderly
  | inside _ orderly _ => exact orderly

theorem behind (h : Ordered line (o :: parent :: below)) : o.Behind line parent := by
  cases h with
  | inside behind _ _ => exact behind

theorem around (h : Ordered line (o :: parent :: below)) : Ordered line (parent :: below) := by
  cases h with
  | inside _ _ around => exact around

/-- The innermost token may change as long as its place and what is closed inside stay in order. -/
theorem replace {next : OpenToken} (h : Ordered line (o :: below)) (orderly : next.Orderly)
    (behind : ∀ parent, o.Behind line parent → next.Behind line parent) :
    Ordered line (next :: below) := by
  cases h with
  | line _ => exact .line orderly
  | inside old _ around => exact .inside (behind _ old) orderly around

/-- The innermost token ends, and becomes a child of the one around it. -/
theorem absorb (around : Ordered line (parent :: below)) (inner : o.Orderly)
    (behind : o.Behind line parent)
    (settled : o.kind.isFilled → ∀ last ∈ o.done.head?, ¬ last.Ended) :
    Ordered line (parent.absorb o line :: below) :=
  around.replace (around.orderly.absorb inner behind settled) fun _ => Behind.absorb

/-- The innermost token ends, and it is neither a group nor the line. -/
theorem close (h : Ordered line (o :: parent :: below)) (hollow : o.kind.isFilled = false) :
    Ordered line (parent.absorb o line :: below) :=
  h.around.absorb h.orderly h.behind fun filled => absurd (hollow.symm.trans filled) (by simp)

/-- Another token begins behind those that are closed. -/
theorem begin {next : OpenToken} (h : Ordered line (o :: below)) (childless : next.done = [])
    (follows : ∀ last ∈ o.done.head?, last.Follows (next.toToken line)) :
    Ordered line (next :: o :: below) :=
  .inside (fun _ => follows) (orderly_of_childless childless) h

/-- A token begins inside a literal or a comment, or is the first one in a group. -/
theorem nest {next : OpenToken} (h : Ordered line (o :: below)) (childless : next.done = [])
    (first : o.done = [] ∨ o.kind.isFilled = false) : Ordered line (next :: o :: below) :=
  .inside (first.elim behind_first behind_hollow) (orderly_of_childless childless) h

end Ordered

theorem Kind.begunBy_label {previous : Kind} (h : previous.begunBy c = .label) :
    previous = .labelMark := by
  unfold Kind.begunBy at h
  grind

theorem Kind.begunBy_identifier {previous : Kind} (h : previous.begunBy c = .identifier) :
    previous ≠ .labelMark := by
  unfold Kind.begunBy at h
  grind

/-- Behind a token that has ended stands whitespace. -/
theorem follows_gap {t : Token} (ended : t.Ended) (start : Nat) :
    t.Follows ((OpenToken.gap start).toToken line) where
  gap := fun _ => rfl
  solid := fun open_ended => (open_ended ended).elim
  label := fun label => by cases label
  name := fun name => by cases name

/-- A token with a first character may stand behind one that has not ended. -/
theorem OpenToken.Grows.follows_begun {o : OpenToken} {k : Kind} (h : o.Grows rest)
    (label : k = .label → o.kind = .labelMark) (name : k = .identifier → o.kind ≠ .labelMark) :
    (o.toToken line).Follows ((begun k offset c).toToken line) where
  gap := fun ended => (h.not_ended ended).elim
  solid := fun _ => by simp [begun, toToken]
  label := label
  name := name

/-- The moves keep the open tokens in order. -/
theorem Move.ordered {stack next : List OpenToken} {events : List ScanEvent}
    (move : Move line offset c stack next events) (sound : Sound line text (c :: rest) stack)
    (settled : ∀ o ∈ stack.head?, o.kind.isFilled = false) (h : Ordered line stack) :
    Ordered line next := by
  cases move with
  | @extend o below effect => exact h.replace ⟨h.orderly.chain, h.orderly.inside⟩ fun _ => Behind.push
  | @become o below k effect =>
    have childless := sound.steady.grows.childless_of_become effect
    refine h.replace (orderly_of_childless childless) fun parent behind filled last member => ?_
    have follows := behind filled last member
    have fresh : k ≠ .label ∧ k ≠ .identifier := by
      rcases Kind.effect_become effect with ⟨-, -, rfl⟩ | ⟨-, -, rfl⟩ | ⟨-, -, rfl⟩ | ⟨-, -, rfl⟩ <;>
        simp
    refine ⟨fun ended => ?_, fun _ => by simp [toToken, OpenToken.push],
      fun label => (fresh.1 label).elim, fun name => (fresh.2 name).elim⟩
    have blank : o.kind = .whitespace := follows.gap ended
    rw [blank] at effect
    rcases Kind.effect_become effect with ⟨same, -⟩ | ⟨same, -⟩ | ⟨same, -⟩ | ⟨same, -⟩ <;> cases same
  | @nest o below k effect => exact h.nest rfl (Or.inr (settled o rfl))
  | @endAfter o parent below effect =>
    have pushed : Ordered line (o.push c :: parent :: below) :=
      h.replace ⟨h.orderly.chain, h.orderly.inside⟩ fun _ => Behind.push
    exact pushed.close (settled o rfl)
  | @endWithGap o parent below effect =>
    have pushed : Ordered line (o.push c :: parent :: below) :=
      h.replace ⟨h.orderly.chain, h.orderly.inside⟩ fun _ => Behind.push
    refine (pushed.close (settled o rfl)).begin rfl fun last member => ?_
    obtain rfl : (o.push c).toToken line = last := Option.some.inj member
    exact follows_gap (sound.steady.grows.ended_endWithGap effect) _
  | @closeGroup o group outer below b effect kind closer =>
    have closed := h.close (settled o rfl)
    have group_kind : (group.absorb o line).kind = .brackets b := kind
    have grows : (group.absorb o line).Grows (c :: rest) :=
      sound.around.steady.grows.absorb sound.within.admits sound.within.start
        fun content => ((Kind.effect_endBefore effect).2.2.2.2 content).elim
    have whole : Ordered line (outer.absorb ((group.absorb o line).push c) line :: below) := by
      refine closed.around.absorb ⟨closed.orderly.chain, closed.orderly.inside⟩ closed.behind.push
        fun _ last member => ?_
      obtain rfl : o.toToken line = last := Option.some.inj member
      exact sound.steady.grows.not_ended
    refine whole.begin rfl fun last member => ?_
    obtain rfl : ((group.absorb o line).push c).toToken line = last := Option.some.inj member
    exact follows_gap (grows.ended_last (congrArg Kind.frame? group_kind) (by rw [closer])) _
  | @mismatch o parent below b effect closer other =>
    refine (h.close (settled o rfl)).begin rfl fun last member => ?_
    obtain rfl : o.toToken line = last := Option.some.inj member
    exact sound.steady.grows.follows_begun (by simp) (by simp)
  | @openGroup o parent below b effect opener =>
    refine Ordered.nest ((h.close (settled o rfl)).begin rfl fun last member => ?_) rfl (Or.inl rfl)
    obtain rfl : o.toToken line = last := Option.some.inj member
    exact sound.steady.grows.follows_begun (by simp) (by simp)
  | @begin o parent below effect closer opener =>
    refine (h.close (settled o rfl)).begin rfl fun last member => ?_
    obtain rfl : o.toToken line = last := Option.some.inj member
    exact sound.steady.grows.follows_begun Kind.begunBy_label Kind.begunBy_identifier

namespace Scan

theorem ordered_run {s : Scan} {read : Text} (h : Invariant line text (read ++ rest) s)
    (ordered : Ordered line s.openTokens) : Ordered line (s.run read).openTokens := by
  induction read generalizing s with
  | nil => exact ordered
  | cons c read ih =>
    obtain ⟨events, move, -⟩ := h.move
    exact ih (invariant_step h) (move.ordered h.sound h.settled_head ordered)

end Scan

/-- The open tokens at the end of the line, while the innermost ones are closed: they are in order,
and nothing has ended that lacks its whitespace. -/
structure EndOrder (line : Nat) (o : OpenToken) (below : List OpenToken) : Prop where
  ordered : Ordered line (o :: below)
  settled : o.kind.isFilled → ∀ last ∈ o.done.head?, ¬ last.Ended

/-- A token that the end of the line closes has not ended of itself. -/
theorem EndOrder.close {o parent : OpenToken} {below : List OpenToken}
    (h : EndOrder line o (parent :: below)) (grows : o.Grows rest) :
    EndOrder line (parent.absorb o line) below where
  ordered := h.ordered.around.absorb h.ordered.orderly h.ordered.behind h.settled
  settled := fun _ last member => by
    obtain rfl : o.toToken line = last := Option.some.inj member
    exact grows.not_ended

namespace ScannedLine

/-- Neighbours in a scanned line may stand behind one another. -/
theorem neighbourly {report : Bool} {u : Token}
    (member : u ∈ (ofText line text report).tree.listing) : u.Neighbourly := by
  have invariant := Scan.invariant_end line text
  have ordered : Ordered line ((Scan.start line).run text).openTokens :=
    Scan.ordered_run (Scan.invariant_whole line text)
      (.inside (behind_first rfl) (orderly_of_childless rfl) (.line (orderly_of_childless rfl)))
  have closed : EndOrder line
      (((Scan.start line).run text).top.collapse line ((Scan.start line).run text).below) [] := by
    apply invariant.sound.collapse_induction invariant.top_nonempty invariant.reads_end
    · exact ⟨ordered, fun filled => absurd (invariant.settled.symm.trans filled) (by simp)⟩
    · intro o parent below sound order
      exact order.close sound.steady.grows
  rw [tree_eq] at member
  rcases mem_listing_iff.1 member with rfl | ⟨d, child, inside⟩
  · refine fun filled => ⟨closed.ordered.orderly.chain filled, fun last final => ?_⟩
    exact closed.settled filled last (by simpa [toToken] using final)
  · exact closed.ordered.orderly.inside d (by simpa [toToken] using child) u inside

end ScannedLine
end LineTree
