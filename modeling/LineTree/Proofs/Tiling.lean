import LineTree.Proofs.Finish

/-!
# Scanned lines are tiled

The tree of a line covers the line without a gap, at the level of the line and inside every bracket
group, and each token stands where its offsets say. Main statement: `Token.ofLine_tiles_line`.
-/
namespace LineTree.Token

/-- The children of the group tile it from behind its opening character. They reach its closing
character, or the end of the line `text` if the group was never closed. -/
def GroupTiled (text : Text) (b : Bracket) (t : Token) : Prop :=
  t.literal.head? = some b.opener ∧
    ((t.literal.getLast? = some b.closer ∧ Tiled (t.start + 1) t.children (t.stop - 1)) ∨
      (t.stop = Text.byteLength text ∧ Tiled (t.start + 1) t.children t.stop))

theorem HasForm.groupTiled {text : Text} {t : Token} {b : Bracket} (h : t.HasForm text)
    (kind : t.kind = .brackets b) : t.GroupTiled text b := by
  obtain ⟨body, laid, literal⟩ := h.framed _ (congrArg Kind.frame? kind)
  have opener : Text.byteLength [b.opener] = 1 := by cases b <;> rfl
  have closer : Text.byteLength [b.closer] = 1 := by cases b <;> rfl
  have tiled := laid.tiled
  rw [opener] at tiled
  rcases literal with ⟨last, final, same⟩ | ⟨same, stop⟩
  · obtain rfl : b.closer = last := Option.some.inj final
    refine ⟨by simp [same], Or.inl ⟨by rw [same, List.getLast?_concat], ?_⟩⟩
    have stop : t.stop - 1 = t.start + 1 + Text.byteLength body := by
      rw [Token.stop, same, Text.byteLength_append, Text.byteLength_append, opener, closer]
      omega
    rwa [stop]
  · refine ⟨by simp [same], Or.inr ⟨stop, ?_⟩⟩
    have stop : t.stop = t.start + 1 + Text.byteLength body := by
      rw [Token.stop, same, Text.byteLength_append, opener]
      omega
    rwa [stop]

theorem Conforms.slice?_eq {line : Nat} {text : Text} {t : Token} (h : t.Conforms line text) :
    Text.slice? text t.start t.stop = some t.literal := by
  obtain ⟨before, after, place, start, -⟩ := h.place
  exact Text.slice?_eq_some_iff.2 ⟨before, after, place, start, rfl⟩

/-- The children of a line are laid in it without a gap, and the first one is the indent. -/
theorem HasForm.line_children {text : Text} {t : Token} (h : t.HasForm text)
    (kind : t.kind = .line) (literal : t.literal = text) (start : t.start = 0) :
    Tiled 0 t.children (Text.byteLength text) ∧
      ∃ indent rest, t.children = indent :: rest ∧ indent.kind = .indent ∧ indent.start = 0 := by
  obtain ⟨body, laid, same⟩ := h.framed _ (congrArg Kind.frame? kind)
  have whole : t.literal = body := by
    rcases same with ⟨last, final, -⟩ | ⟨same, -⟩
    · cases final
    · exact same
  have tiled := laid.tiled
  rw [start, ← whole, literal] at tiled
  have tiles : Tiled 0 t.children (Text.byteLength text) := by simpa using tiled
  refine ⟨tiles, ?_⟩
  have nonempty := h.filled (by rw [kind]; rfl)
  obtain ⟨indent, rest, children⟩ := List.exists_cons_of_ne_nil nonempty
  have admits := h.admits [] indent rest children
  rw [kind] at admits
  rw [children] at tiles
  exact ⟨indent, rest, children, admits, tiles.1⟩

/-- A line is scanned into a tree that tiles it: every token is the part of the line between its
offsets, siblings do not overlap, the children of the line and of each group leave no gap, and
rebuilding any token gives its literal. -/
theorem ofLine_tiles_line (line : Nat) (text : Text) :
    let t := Token.ofLine line text
    (t.kind = .line ∧ t.start = 0 ∧ t.literal = text ∧
      ∃ indent rest, t.children = indent :: rest ∧ indent.kind = .indent ∧ indent.start = 0) ∧
    (∀ d ∈ t.descendants, d.line = line ∧ d.value = none ∧
      Text.slice? text d.start d.stop = some d.literal ∧ d.Nests ∧
      (∀ b, d.kind = .brackets b → d.GroupTiled text b) ∧ d.rebuild = d.literal) ∧
    Tiled 0 t.children (Text.byteLength text) ∧
    Token.ofLine line t.rebuild = t := by
  intro t
  have root : ScannedLine.IsRoot line text t := ScannedLine.isRoot line text true
  have conforms : ∀ d ∈ t.listing, d.Conforms line text := fun d => ScannedLine.conforms
  have placed : t.WellPlaced := ScannedLine.wellPlaced line text true
  obtain ⟨tiled, first⟩ :=
    (conforms t t.self_mem_listing).form.line_children root.kind_eq root.literal_eq root.start_eq
  refine ⟨⟨root.kind_eq, root.start_eq, root.literal_eq, first⟩, fun d member => ?_, tiled, ?_⟩
  · have listed := mem_descendants_iff.1 member
    have own := conforms d listed
    have inner := placed.descendant listed
    exact ⟨own.line_eq, own.value_eq, own.slice?_eq, inner.nests,
      fun b kind => own.form.groupTiled kind, inner.rebuild_eq_literal⟩
  · rw [placed.rebuild_eq_literal, root.literal_eq]

end LineTree.Token
