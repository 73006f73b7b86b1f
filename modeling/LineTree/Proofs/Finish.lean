import LineTree.Proofs.Invariant

/-!
# Scanned lines

At the end of a line the open tokens are closed one after the other, and the line is left with the
finished tree. Main statements: `ScannedLine.tree_eq`, `ScannedLine.conforms`.
-/
namespace LineTree

variable {line : Nat} {text : Text}

namespace OpenToken

/-- The outermost token, when all tokens inside it have been closed. -/
def collapse (line : Nat) : OpenToken → List OpenToken → OpenToken
  | o, [] => o
  | o, parent :: below => collapse line (parent.absorb o line) below

/-- The tokens that are closed on the way, in order. -/
def collapsed (line : Nat) : OpenToken → List OpenToken → List Token
  | _, [] => []
  | o, parent :: below => o.toToken line :: collapsed line (parent.absorb o line) below

end OpenToken

open OpenToken

namespace Scan

theorem closeAll_eq (s : Scan) :
    s.closeAll = { s with
      top := collapse s.line s.top s.below
      below := []
      events := ((collapsed s.line s.top s.below).map ScanEvent.closed).reverse ++ s.events } := by
  obtain ⟨line, offset, top, below, events⟩ := s
  induction below generalizing top events with
  | nil => rfl
  | cons parent below ih =>
    have first : (⟨line, offset, top, parent :: below, events⟩ : Scan).closeAll =
        (⟨line, offset, parent.absorb top line, below,
          .closed (top.toToken line) :: events⟩ : Scan).closeAll := rfl
    rw [first, ih]
    simp [collapse, collapsed]

end Scan

namespace Sound

variable {o parent : OpenToken} {below : List OpenToken}

/-- The innermost token can be closed at the end of the line. -/
theorem close (h : Sound line text [] (o :: parent :: below)) (filled : o.kind.isFilled → o.done ≠ [])
    (reads : text = ((o :: parent :: below).flatMap (·.read)).reverse) :
    Sound line text [] (parent.absorb o line :: below) := by
  obtain ⟨before, place, start⟩ := h.standing (reads.trans (List.append_nil _).symm)
  have token : (o.toToken line).Conforms line text :=
    h.steady.grows.conforms_atEnd filled (by simpa using place) start
  exact h.around.absorb h.within token h.steady.inside fun _ => rfl

/-- What holds of the open tokens at the end of the line, and still holds whenever the innermost
one is closed, holds of the line when all are closed. -/
theorem collapse_induction {motive : OpenToken → List OpenToken → Prop}
    (h : Sound line text [] (o :: below)) (filled : o.kind.isFilled → o.done ≠ [])
    (reads : text = ((o :: below).flatMap (·.read)).reverse) (start : motive o below)
    (step : ∀ o parent below, Sound line text [] (o :: parent :: below) →
      motive o (parent :: below) → motive (parent.absorb o line) below) :
    motive (o.collapse line below) [] := by
  induction below generalizing o with
  | nil => exact start
  | cons parent below ih =>
    refine ih (h.close filled reads) (fun _ => by simp [OpenToken.absorb]) ?_
      (step o parent below h start)
    simpa [OpenToken.absorb] using reads

/-- Closing all tokens at the end of the line keeps the stack sound. -/
theorem collapse (h : Sound line text [] (o :: below)) (filled : o.kind.isFilled → o.done ≠ [])
    (reads : text = ((o :: below).flatMap (·.read)).reverse) :
    Sound line text [] [o.collapse line below] ∧ (o.collapse line below).done ≠ [] ∧
      (o.collapse line below).read.reverse = text := by
  induction below generalizing o with
  | nil =>
    have kind := h.bottom.2 rfl
    exact ⟨h, filled (by rw [kind]; rfl), by simp [reads, OpenToken.collapse]⟩
  | cons parent below ih =>
    refine ih (h.close filled reads) (fun _ => by simp [OpenToken.absorb]) ?_
    simpa [OpenToken.absorb] using reads

end Sound

namespace Scan

theorem Invariant.reads_end {s : Scan} (h : Invariant line text [] s) :
    text = (s.openTokens.flatMap (·.read)).reverse := by
  simpa [consumed] using h.reads

theorem Invariant.top_nonempty {s : Scan} {rest : Text} (h : Invariant line text rest s)
    (filled : s.top.kind.isFilled) : s.top.done ≠ [] := by
  rw [h.settled] at filled
  cases filled

end Scan

namespace ScannedLine

/-- The tree is what the end of the line makes of the open tokens, reported or not. -/
theorem tree_eq (line : Nat) (text : Text) (report : Bool) :
    (ofText line text report).tree =
      (((Scan.start line).run text).top.collapse line ((Scan.start line).run text).below).toToken
        line := by
  have number := (Scan.invariant_end line text).line_eq
  cases report <;> simp [ofText, Scan.closeAll_eq, Scan.reportUnclosed, number]

/-- The root of the tree is the whole line. -/
structure IsRoot (line : Nat) (text : Text) (t : Token) : Prop where
  kind_eq : t.kind = .line
  line_eq : t.line = line
  start_eq : t.start = 0
  literal_eq : t.literal = text
  value_eq : t.value = none

theorem root_and_conforms (line : Nat) (text : Text) (report : Bool) :
    IsRoot line text (ofText line text report).tree ∧
      ∀ u ∈ (ofText line text report).tree.listing, u.Conforms line text := by
  have invariant := Scan.invariant_end line text
  obtain ⟨sound, nonempty, whole⟩ :=
    invariant.sound.collapse invariant.top_nonempty invariant.reads_end
  rw [tree_eq]
  generalize ((Scan.start line).run text).top.collapse line
    ((Scan.start line).run text).below = root at sound nonempty whole ⊢
  cases sound with
  | line kind start steady =>
    refine ⟨⟨kind, rfl, start, whole, rfl⟩, fun u member => ?_⟩
    rcases Token.mem_listing_iff.1 member with rfl | ⟨c, child, inside⟩
    · have place : text = [] ++ root.read.reverse := by simpa using whole.symm
      exact steady.grows.conforms_atEnd (fun _ => nonempty) place start.symm
    · exact steady.inside c (by simpa [toToken] using child) u inside

theorem isRoot (line : Nat) (text : Text) (report : Bool) :
    IsRoot line text (ofText line text report).tree :=
  (root_and_conforms line text report).1

/-- Every token of a scanned line conforms to the grammar. -/
theorem conforms {report : Bool} {u : Token} (member : u ∈ (ofText line text report).tree.listing) :
    u.Conforms line text :=
  (root_and_conforms line text report).2 u member

/-- Only the root of the tree is a line. -/
theorem eq_tree_of_line {report : Bool} {u : Token}
    (member : u ∈ (ofText line text report).tree.listing) (kind : u.kind = .line) :
    u = (ofText line text report).tree := by
  rcases Token.mem_listing_iff.1 member with own | ⟨c, child, inside⟩
  · exact own
  · obtain ⟨p, above, inner⟩ := Token.exists_parent child inside
    obtain ⟨earlier, admits⟩ := (conforms above).form.admits.mem inner
    exact (admits.inner.1 kind).elim

/-- The tree of a scanned line is well placed. -/
theorem wellPlaced (line : Nat) (text : Text) (report : Bool) :
    (ofText line text report).tree.WellPlaced :=
  fun _ member => (conforms member).form.laid

end ScannedLine

theorem Token.kind_ofLine (line : Nat) (text : Text) : (Token.ofLine line text).kind = .line :=
  (ScannedLine.isRoot line text true).kind_eq

end LineTree
