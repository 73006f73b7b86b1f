import Mathlib.Data.List.Perm.Basic
import LineTree.Proofs.Reports
import LineTree.Proofs.Placement

/-!
# The tokens that a scan makes known

A token is made known when it is closed, behind the tokens inside it. So at every point of a line
the tokens made known are those closed inside the open ones, in post-order, and at its end
those of the whole tree. Main statements: `Move.finished`, `Scan.closed_run`,
`ScannedLine.postorder_tree`.
-/
namespace LineTree

variable {line offset : Nat} {text rest : Text} {c : Char}

namespace Token

mutual

/-- The token behind all tokens inside it, in post-order. -/
def postorder : Token → List Token
  | ⟨line, start, literal, kind, children, value⟩ =>
    postorderAll children ++ [⟨line, start, literal, kind, children, value⟩]

/-- The same for tokens in a row. -/
def postorderAll : List Token → List Token
  | [] => []
  | t :: later => t.postorder ++ postorderAll later

end

theorem postorder_eq (t : Token) : t.postorder = postorderAll t.children ++ [t] := by
  cases t
  rfl

theorem postorderAll_eq_flatMap (tokens : List Token) :
    postorderAll tokens = tokens.flatMap postorder := by
  induction tokens with
  | nil => rfl
  | cons t later ih => rw [postorderAll, ih, List.flatMap_cons]

/-- Post-order lists the same tokens as pre-order, each as often. -/
theorem postorder_perm (t : Token) : t.postorder.Perm t.listing := by
  induction t using Token.induction with
  | node line start literal kind children value ih =>
    rw [postorder_eq, postorderAll_eq_flatMap, listing_eq, listingAll_eq_flatMap]
    exact (List.perm_append_singleton _ _).trans ((List.Perm.flatMap_left _ ih).cons _)

theorem postorderAll_perm (tokens : List Token) :
    (postorderAll tokens).Perm (listingAll tokens) := by
  rw [postorderAll_eq_flatMap, listingAll_eq_flatMap]
  exact .flatMap_left _ fun t _ => postorder_perm t

theorem mem_postorderAll_iff {tokens : List Token} {u : Token} :
    u ∈ postorderAll tokens ↔ ∃ c ∈ tokens, u ∈ c.listing := by
  rw [(postorderAll_perm tokens).mem_iff, listingAll_eq_flatMap, List.mem_flatMap]

end Token

open OpenToken Token

/-- The token that an event makes known. -/
def ScanEvent.closed? : ScanEvent → Option Token
  | .closed t => some t
  | .reported _ => none

/-- The tokens that have been closed inside the open ones, in order. -/
def finished : List OpenToken → List Token
  | [] => []
  | o :: below => finished below ++ postorderAll o.done.reverse

theorem finished_fresh {o : OpenToken} (childless : o.done = []) (below : List OpenToken) :
    finished (o :: below) = finished below := by
  rw [finished, childless, List.reverse_nil, postorderAll, List.append_nil]

theorem mem_finished {stack : List OpenToken} {o : OpenToken} (opened : o ∈ stack) {d u : Token}
    (child : d ∈ o.done) (inside : u ∈ d.listing) : u ∈ finished stack := by
  induction stack with
  | nil => cases opened
  | cons top below ih =>
    rw [finished, List.mem_append, mem_postorderAll_iff]
    rcases List.mem_cons.1 opened with rfl | outer
    · exact Or.inr ⟨d, List.mem_reverse.2 child, inside⟩
    · exact Or.inl (ih outer)

/-- When the innermost token is closed, it comes behind all others. -/
theorem finished_absorb (o parent : OpenToken) (below : List OpenToken) :
    finished (parent.absorb o line :: below) =
      finished (o :: parent :: below) ++ [o.toToken line] := by
  have done : (parent.absorb o line).done.reverse = parent.done.reverse ++ [o.toToken line] := by
    simp [OpenToken.absorb]
  have own : (o.toToken line).postorder = postorderAll o.done.reverse ++ [o.toToken line] :=
    postorder_eq _
  simp only [finished, done, postorderAll_eq_flatMap, List.flatMap_append, List.flatMap_singleton]
  rw [own, postorderAll_eq_flatMap, List.append_assoc, List.append_assoc]

/-- The moves make the tokens known that they close. -/
theorem Move.finished {stack next : List OpenToken} {events : List ScanEvent}
    (move : Move line offset c stack next events) :
    finished next = finished stack ++ events.filterMap ScanEvent.closed? := by
  have pushed (o : OpenToken) (below : List OpenToken) :
      LineTree.finished (o.push c :: below) = LineTree.finished (o :: below) := rfl
  cases move with
  | extend effect | become effect => exact (List.append_nil _).symm
  | nest effect =>
    rw [finished_fresh rfl]
    exact (List.append_nil _).symm
  | endAfter effect => exact finished_absorb _ _ _
  | endWithGap effect =>
    rw [finished_fresh rfl]
    exact finished_absorb _ _ _
  | closeGroup effect kind closer =>
    rw [finished_fresh rfl, finished_absorb, pushed, finished_absorb, List.append_assoc]
    rfl
  | mismatch effect closer other =>
    rw [finished_fresh rfl]
    exact finished_absorb _ _ _
  | openGroup effect opener =>
    rw [finished_fresh rfl, finished_fresh rfl]
    exact finished_absorb _ _ _
  | begin effect closer opener =>
    rw [finished_fresh rfl]
    exact finished_absorb _ _ _

/-- Nor is any token lost when the line ends. -/
theorem finished_collapse (o : OpenToken) (below : List OpenToken) :
    postorderAll ((o.collapse line below).toToken line).children =
      finished (o :: below) ++ collapsed line o below := by
  induction below generalizing o with
  | nil => simp [collapse, collapsed, finished, toToken]
  | cons parent below ih =>
    rw [collapse, ih, collapsed, finished_absorb, List.append_assoc]
    rfl

namespace Scan

/-- The tokens made known so far, in order. -/
def closed (s : Scan) : List Token := s.events.reverse.filterMap ScanEvent.closed?

theorem closed_step {s : Scan} {events : List ScanEvent}
    (h : (s.step c).events = events.reverse ++ s.events) :
    (s.step c).closed = s.closed ++ events.filterMap ScanEvent.closed? := by
  simp [closed, h]

theorem closed_run {s : Scan} {read : Text} (h : Invariant line text (read ++ rest) s)
    (same : s.closed = finished s.openTokens) :
    (s.run read).closed = finished (s.run read).openTokens := by
  induction read generalizing s with
  | nil => exact same
  | cons c read ih =>
    obtain ⟨events, move, known⟩ := h.move
    exact ih (invariant_step h) (by rw [closed_step known, move.finished, same])

theorem closed_end (line : Nat) (text : Text) :
    ((start line).run text).closed = finished ((start line).run text).openTokens :=
  closed_run (invariant_whole line text) rfl

/-- What holds of the tokens that any move closes holds of all tokens that a run makes known. -/
theorem forall_closed_run {P : Token → Prop} {s : Scan} {read : Text}
    (closes : ∀ {offset c rest stack next events}, Move line offset c stack next events →
      Sound line text (c :: rest) stack → (∀ o ∈ stack.head?, o.kind.isFilled = false) →
      ∀ t ∈ events.filterMap ScanEvent.closed?, P t)
    (h : Invariant line text (read ++ rest) s) (known : ∀ t ∈ s.closed, P t) :
    ∀ t ∈ (s.run read).closed, P t := by
  induction read generalizing s with
  | nil => exact known
  | cons c read ih =>
    obtain ⟨events, move, made⟩ := h.move
    refine ih (invariant_step h) fun t member => ?_
    rw [closed_step made] at member
    rcases List.mem_append.1 member with earlier | here
    · exact known t earlier
    · exact closes move h.sound h.settled_head t here

end Scan

/-- Behind the tokens that the run makes known come those that are closed at the end of the line;
together they are all tokens of the tree but the root. -/
theorem ScannedLine.postorder_tree (line : Nat) (text : Text) (report : Bool) :
    let s := (Scan.start line).run text
    postorderAll (ofText line text report).tree.children =
      s.closed ++ collapsed line s.top s.below := by
  intro s
  rw [tree_eq, finished_collapse, Scan.closed_end]
  rfl

/-- Every token of the tree but the root was made known on the way or is closed at the end. -/
theorem ScannedLine.mem_listing_tree_iff {report : Bool} {u : Token} :
    let s := (Scan.start line).run text
    let t := (ofText line text report).tree
    u ∈ t.listing ↔ u = t ∨ u ∈ s.closed ∨ u ∈ collapsed line s.top s.below := by
  intro s t
  rw [mem_listing_iff, ← mem_postorderAll_iff, postorder_tree, List.mem_append]

end LineTree
