import Mathlib.Data.List.Chain
import LineTree.Proofs.Tiling

/-!
# The token at an offset

The tokens that contain a byte stand one inside the other, from the root of the tree inwards. The
search for the innermost one follows the first child that contains the byte; no other child does, and
an empty token contains none. In a line the children leave no gap, so nothing lies in a group alone
but its own brackets. Main statements: `Token.Nested.tokensAt_cases`,
`Token.Nested.innermost?_eq_getLast?`, `Token.innermost?_nested`.
-/
namespace LineTree

theorem Tiled.exists_covers {first last offset : Nat} {tokens : List Token}
    (h : Tiled first tokens last) (low : first ≤ offset) (high : offset < last) :
    ∃ t ∈ tokens, t.Covers offset := by
  induction tokens generalizing first with
  | nil =>
    have none_left : first = last := h
    omega
  | cons t rest ih =>
    by_cases inside : offset < t.stop
    · exact ⟨t, by simp, h.1 ▸ low, inside⟩
    · obtain ⟨u, member, covers⟩ := ih h.2 (by omega)
      exact ⟨u, by simp [member], covers⟩

namespace Token

/-- The children of every token of the tree stand inside it, in order and without overlap. -/
def Nested (t : Token) : Prop := ∀ u ∈ t.listing, u.Nests

instance (t : Token) : Decidable t.Nested := inferInstanceAs (Decidable (∀ u ∈ t.listing, _))

/-- The tokens of the tree that contain the byte at the offset, in pre-order. -/
def tokensAt (t : Token) (offset : Nat) : List Token := t.descendants.filter (·.Covers offset)

variable {t u c : Token} {offset : Nat}

theorem mem_tokensAt_iff : u ∈ t.tokensAt offset ↔ u ∈ t.descendants ∧ u.Covers offset := by
  rw [tokensAt, List.mem_filter, decide_eq_true_iff]

theorem tokensAt_eq (t : Token) (offset : Nat) : t.tokensAt offset =
    (if t.Covers offset then [t] else []) ++ t.children.flatMap (·.tokensAt offset) := by
  simp only [tokensAt, descendants_eq_listing]
  rw [listing_eq, listingAll_eq_flatMap, List.filter_cons, List.filter_flatMap]
  by_cases covers : t.Covers offset <;> simp [covers]

theorem tokensAt_eq_cons (covers : t.Covers offset) : t.tokensAt offset =
    t :: t.children.flatMap (·.tokensAt offset) := by
  rw [tokensAt_eq, if_pos covers, List.singleton_append]

theorem innermost?_eq_none (outside : ¬t.Covers offset) : t.innermost? offset = none := by
  rw [innermost?_eq, if_neg outside]

theorem Nests.covers_of_child (h : t.Nests) (child : c ∈ t.children) (covers : c.Covers offset) :
    t.Covers offset := by
  obtain ⟨low, high⟩ := h.2 c child
  exact ⟨Nat.le_trans low covers.1, Nat.lt_of_lt_of_le covers.2 high⟩

/-- Only one of the children contains the byte. -/
theorem Nests.not_covers_of_sibling (h : t.Nests) {earlier later : List Token}
    (row : t.children = earlier ++ c :: later) (covers : c.Covers offset) :
    (∀ d ∈ earlier, ¬d.Covers offset) ∧ ∀ d ∈ later, ¬d.Covers offset := by
  have ordered := h.1
  rw [row, List.pairwise_append] at ordered
  obtain ⟨-, behind, across⟩ := ordered
  refine ⟨fun d member other => ?_, fun d member other => ?_⟩
  · have apart : d.stop ≤ c.start := across d member c (by simp)
    exact absurd other.2 (Nat.not_lt.2 (Nat.le_trans apart covers.1))
  · have apart : c.stop ≤ d.start := List.rel_of_pairwise_cons behind member
    exact absurd covers.2 (Nat.not_lt.2 (Nat.le_trans apart other.1))

namespace Nested

theorem nests (h : t.Nested) : t.Nests := h t t.self_mem_listing

theorem child (h : t.Nested) (member : c ∈ t.children) : c.Nested := fun u inside =>
  h u (mem_listing_iff.2 (Or.inr ⟨c, member, inside⟩))

/-- Nothing in a token reaches outside of it. -/
theorem tokensAt_eq_nil (h : t.Nested) (outside : ¬t.Covers offset) : t.tokensAt offset = [] := by
  induction t using Token.induction with
  | node line start literal kind children value ih =>
    rw [tokensAt_eq, if_neg outside, List.nil_append, List.flatMap_eq_nil_iff]
    intro c member
    exact ih c member (h.child member) fun covers => outside (h.nests.covers_of_child member covers)

/-- The byte lies in no child, and the token is the innermost one, or it lies in a single child, and
the search goes on there. -/
theorem tokensAt_cases (h : t.Nested) (covers : t.Covers offset) :
    ((∀ c ∈ t.children, ¬c.Covers offset) ∧ t.tokensAt offset = [t] ∧
      t.innermost? offset = some t) ∨
    ∃ c ∈ t.children, c.Covers offset ∧ t.tokensAt offset = t :: c.tokensAt offset ∧
      t.innermost? offset = c.innermost? offset := by
  rw [tokensAt_eq_cons covers, innermost?_eq t, if_pos covers]
  by_cases inner : ∃ c ∈ t.children, c.Covers offset
  · obtain ⟨c, member, here⟩ := inner
    -- The search stops at this child, and the listing goes on to the later ones: both find nothing.
    obtain ⟨earlier, later, row⟩ := List.append_of_mem member
    obtain ⟨before, behind⟩ := h.nests.not_covers_of_sibling row here
    have front : earlier.flatMap (·.tokensAt offset) = [] := List.flatMap_eq_nil_iff.2 fun d listed =>
      (h.child (by simp [row, listed])).tokensAt_eq_nil (before d listed)
    have back : later.flatMap (·.tokensAt offset) = [] := List.flatMap_eq_nil_iff.2 fun d listed =>
      (h.child (by simp [row, listed])).tokensAt_eq_nil (behind d listed)
    have passed : earlier.findSome? (·.innermost? offset) = none :=
      List.findSome?_eq_none_iff.2 fun d listed => innermost?_eq_none (before d listed)
    have found : ∃ u, c.innermost? offset = some u := by
      rw [innermost?_eq, if_pos here]
      exact ⟨_, rfl⟩
    obtain ⟨u, found⟩ := found
    refine Or.inr ⟨c, member, here, ?_, ?_⟩
    · rw [row, List.flatMap_append, List.flatMap_cons, front, back, List.nil_append, List.append_nil]
    · rw [row, List.findSome?_append, passed, Option.none_or, List.findSome?_cons, found]
      rfl
  · have outer : ∀ c ∈ t.children, ¬c.Covers offset := fun c member here => inner ⟨c, member, here⟩
    have nothing : t.children.flatMap (·.tokensAt offset) = [] :=
      List.flatMap_eq_nil_iff.2 fun c member => (h.child member).tokensAt_eq_nil (outer c member)
    have missed : t.children.findSome? (·.innermost? offset) = none :=
      List.findSome?_eq_none_iff.2 fun c member => innermost?_eq_none (outer c member)
    refine Or.inl ⟨outer, ?_, ?_⟩
    · rw [nothing]
    · rw [missed, Option.getD_none]

/-- The search finds the last one in pre-order of the tokens that contain the byte. -/
theorem innermost?_eq_getLast? (h : t.Nested) (offset : Nat) :
    t.innermost? offset = (t.tokensAt offset).getLast? := by
  induction t using Token.induction with
  | node line start literal kind children value ih =>
    by_cases covers : Covers ⟨line, start, literal, kind, children, value⟩ offset
    · obtain ⟨-, alone, found⟩ | ⟨c, member, here, path, found⟩ := h.tokensAt_cases covers
      · rw [alone, found, List.getLast?_singleton]
      · rw [path, found, ih c member (h.child member), tokensAt_eq_cons here,
          List.getLast?_cons_cons]
    · rw [innermost?_eq_none covers, h.tokensAt_eq_nil covers, List.getLast?_nil]

/-- Each of the tokens that contain the byte is a child of the one in front of it. -/
theorem isChain_tokensAt (h : t.Nested) (offset : Nat) :
    (t.tokensAt offset).IsChain fun a b => b ∈ a.children := by
  induction t using Token.induction with
  | node line start literal kind children value ih =>
    by_cases covers : Covers ⟨line, start, literal, kind, children, value⟩ offset
    · obtain ⟨-, alone, -⟩ | ⟨c, member, here, path, -⟩ := h.tokensAt_cases covers
      · rw [alone]
        exact .singleton _
      · have inner := ih c member (h.child member)
        rw [tokensAt_eq_cons here] at inner path
        rw [path]
        exact .cons_cons member inner
    · rw [h.tokensAt_eq_nil covers]
      exact .nil

/-- The token that is found stands inside all tokens that contain the byte, and none inside it
does. -/
theorem innermost (h : t.Nested) (found : t.innermost? offset = some u) :
    (∀ c ∈ u.children, ¬c.Covers offset) ∧ ∀ v ∈ t.tokensAt offset, u ∈ v.listing := by
  induction t using Token.induction with
  | node line start literal kind children value ih =>
    by_cases covers : Covers ⟨line, start, literal, kind, children, value⟩ offset
    · obtain ⟨outer, alone, own⟩ | ⟨c, member, here, path, inner⟩ := h.tokensAt_cases covers
      · obtain rfl := Option.some.inj (own.symm.trans found)
        refine ⟨outer, fun v listed => ?_⟩
        rw [alone, List.mem_singleton] at listed
        exact listed ▸ v.self_mem_listing
      · obtain ⟨outer, inside⟩ := ih c member (h.child member) (inner.symm.trans found)
        refine ⟨outer, fun v listed => ?_⟩
        rw [path, List.mem_cons] at listed
        rcases listed with rfl | later
        · have deepest : u ∈ c.listing := inside c (by simp [tokensAt_eq_cons here])
          exact mem_listing_iff.2 (Or.inr ⟨c, member, deepest⟩)
        · exact inside v later
    · rw [innermost?_eq_none covers] at found
      cases found

theorem mem_tokensAt_of_innermost? (h : t.Nested) (found : t.innermost? offset = some u) :
    u ∈ t.tokensAt offset := by
  rw [h.innermost?_eq_getLast?] at found
  exact List.mem_of_getLast? found

end Nested

theorem WellPlaced.nested (h : t.WellPlaced) : t.Nested :=
  fun _ member => (h.descendant member).nests

theorem innermost?_eq_none_iff : t.innermost? offset = none ↔ ¬t.Covers offset := by
  rw [innermost?_eq]
  split
  · next covers => simp [covers]
  · next outside => simp [outside]

/-- In a group that has all its children beside the byte, this belongs to one of the brackets. -/
theorem GroupTiled.bracket_of_gap {text : Text} {b : Bracket} (h : t.GroupTiled text b)
    (covers : t.Covers offset) (gap : ∀ c ∈ t.children, ¬c.Covers offset) :
    (offset = t.start ∧ t.literal.head? = some b.opener) ∨
      (offset + 1 = t.stop ∧ t.literal.getLast? = some b.closer ∧
        Tiled (t.start + 1) t.children offset) := by
  obtain ⟨opener, closed⟩ := h
  by_cases first : offset = t.start
  · exact Or.inl ⟨first, opener⟩
  · have low : t.start + 1 ≤ offset := by
      have begins := covers.1
      omega
    have high := covers.2
    obtain ⟨closer, tiled⟩ | ⟨-, tiled⟩ := closed
    · by_cases last : offset < t.stop - 1
      · obtain ⟨c, member, here⟩ := tiled.exists_covers low last
        exact absurd here (gap c member)
      · have final : t.stop - 1 = offset := by omega
        exact Or.inr ⟨by omega, closer, final ▸ tiled⟩
    · obtain ⟨c, member, here⟩ := tiled.exists_covers low high
      exact absurd here (gap c member)

/-- Something stands in a line at each byte of it, and nothing but a bracket alone in a group. -/
theorem exists_innermost?_ofLine (line : Nat) (text : Text)
    (inside : offset < Text.byteLength text) :
    ∃ u, (Token.ofLine line text).innermost? offset = some u ∧ u.kind ≠ .line ∧
      ∀ b, u.kind = .brackets b →
        (offset = u.start ∧ u.literal.head? = some b.opener) ∨
        (offset + 1 = u.stop ∧ u.literal.getLast? = some b.closer ∧
          Tiled (u.start + 1) u.children offset) := by
  have root : ScannedLine.IsRoot line text (Token.ofLine line text) :=
    ScannedLine.isRoot line text true
  have nested : (Token.ofLine line text).Nested := (ScannedLine.wellPlaced line text true).nested
  have covers : (Token.ofLine line text).Covers offset := by
    refine ⟨by rw [root.start_eq]; omega, ?_⟩
    rw [stop, root.start_eq, root.literal_eq]
    omega
  obtain ⟨u, found⟩ := Option.ne_none_iff_exists'.1 fun missing =>
    innermost?_eq_none_iff.1 missing covers
  obtain ⟨listed, here⟩ := mem_tokensAt_iff.1 (nested.mem_tokensAt_of_innermost? found)
  have conforms : u.Conforms line text := ScannedLine.conforms (mem_descendants_iff.1 listed)
  have gap := (nested.innermost found).1
  refine ⟨u, found, fun kind => ?_, fun b kind => ?_⟩
  · obtain rfl := ScannedLine.eq_tree_of_line (mem_descendants_iff.1 listed) kind
    obtain ⟨tiled, -⟩ := conforms.form.line_children kind root.literal_eq root.start_eq
    obtain ⟨c, member, reached⟩ := tiled.exists_covers (Nat.zero_le offset) inside
    exact gap c member reached
  · exact (conforms.form.groupTiled kind).bracket_of_gap here gap

/-- In a tree in which tokens nest, the tokens that contain a byte follow one another from the root
inwards. The search finds nothing outside of the root, and else the last one of them: it is not
empty, no child of it contains the byte, and it stands inside all the others. In a line there is a
token for each byte. It is never the line itself, and a group only at its own brackets. -/
theorem innermost?_nested :
    (∀ t : Token, t.Nested → ∀ offset,
      (t.innermost? offset = none ↔ ¬t.Covers offset) ∧
      t.innermost? offset = (t.descendants.filter (·.Covers offset)).getLast? ∧
      (t.descendants.filter (·.Covers offset)).IsChain (fun a b => b ∈ a.children) ∧
      ∀ u, t.innermost? offset = some u → u.literal ≠ [] ∧ (∀ c ∈ u.children, ¬c.Covers offset) ∧
        ∀ v ∈ t.descendants, v.Covers offset → u ∈ v.descendants) ∧
    ∀ line text, (Token.ofLine line text).Nested ∧ ∀ offset < Text.byteLength text,
      ∃ u, (Token.ofLine line text).innermost? offset = some u ∧ u.kind ≠ .line ∧
        ∀ b, u.kind = .brackets b →
          (offset = u.start ∧ u.literal.head? = some b.opener) ∨
          (offset + 1 = u.stop ∧ u.literal.getLast? = some b.closer ∧
            Tiled (u.start + 1) u.children offset) := by
  refine ⟨fun t nested offset => ?_, fun line text =>
    ⟨(ScannedLine.wellPlaced line text true).nested,
      fun offset inside => exists_innermost?_ofLine line text inside⟩⟩
  refine ⟨innermost?_eq_none_iff, nested.innermost?_eq_getLast? offset,
    nested.isChain_tokensAt offset, fun u found => ?_⟩
  obtain ⟨outer, around⟩ := nested.innermost found
  have covers := (mem_tokensAt_iff.1 (nested.mem_tokensAt_of_innermost? found)).2
  refine ⟨fun empty => ?_, outer, fun v listed here => ?_⟩
  · obtain ⟨low, high⟩ := covers
    rw [stop, empty, Text.byteLength_nil] at high
    omega
  · exact mem_descendants_iff.2 (around v (mem_tokensAt_iff.2 ⟨listed, here⟩))

/-- The second byte of `é` in `(é)` lies in the name, not in the empty whitespace in front of it. -/
theorem innermost?_nested_name :
    let name : Token := ⟨0, 1, ['é'], .identifier, [], none⟩
    let t : Token := ⟨0, 0, "(é)".toList, .brackets .round,
      [⟨0, 1, [], .whitespace, [], none⟩, name, ⟨0, 3, [], .whitespace, [], none⟩], none⟩
    t.Nested ∧ t.innermost? 2 = some name := by
  intro name t
  have nested : t.Nested := by decide +kernel
  exact ⟨nested, (innermost?_nested.1 t nested 2).2.1.trans (by decide +kernel)⟩

end Token
end LineTree
