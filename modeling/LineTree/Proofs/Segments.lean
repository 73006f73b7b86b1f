import LineTree.Proofs.Runs
import LineTree.Program

/-!
# Highlighted text

Highlighting divides the text of a token into segments and adds nothing but control sequences around
some of them. Whatever tokens are laid over it, the segments are the text in order, and those with a
colour are whole tokens. Main statements: `Token.WellPlaced.flatMap_segments`,
`Output.highlight_plain`, `Token.highlighted_division`.
-/
namespace LineTree

namespace Token

variable {overlay : List Token} {t : Token}

/-- Without their colours the segments are what rebuilding the token gives. -/
theorem flatMap_segmentsFrom {tokens : List Token} (origin : Nat) (literal : Text) (offset : Nat)
    (same : ∀ c ∈ tokens, (c.segments overlay).flatMap (·.text) = c.rebuild) :
    (segmentsFrom overlay origin literal offset tokens).flatMap (·.text) =
      rebuildFrom origin literal offset tokens := by
  induction tokens generalizing offset with
  | nil => simp [segmentsFrom, rebuildFrom]
  | cons c later ih =>
    have first := same c (by simp)
    have rest := ih c.stop fun d member => same d (by simp [member])
    simp [segmentsFrom, rebuildFrom, first, rest]

/-- No text is lost between the segments, and none comes twice. -/
theorem WellPlaced.flatMap_segments (h : t.WellPlaced) (overlay : List Token) :
    (t.segments overlay).flatMap (·.text) = t.literal := by
  induction t using Token.induction with
  | node line start literal kind children value ih =>
    rw [segments_eq]
    split
    · next empty => exact (List.isEmpty_iff.1 empty).symm
    · split
      · simp
      · have same : ∀ c ∈ children, (c.segments overlay).flatMap (·.text) = c.rebuild :=
          fun c child =>
            (ih c child (h.child child)).trans (h.child child).rebuild_eq_literal.symm
        rw [flatMap_segmentsFrom start literal start same, ← h.rebuild_eq_literal]
        rfl

theorem mem_segmentsFrom {s : Segment} {origin offset : Nat} {literal : Text} {tokens : List Token}
    (member : s ∈ segmentsFrom overlay origin literal offset tokens) :
    s.colour = none ∨ ∃ c ∈ tokens, s ∈ c.segments overlay := by
  induction tokens generalizing offset with
  | nil =>
    obtain rfl := List.mem_singleton.1 member
    exact Or.inl rfl
  | cons c later ih =>
    rw [segmentsFrom, List.mem_append, List.mem_cons] at member
    rcases member with (rfl | own) | rest
    · exact Or.inl rfl
    · exact Or.inr ⟨c, by simp, own⟩
    · rcases ih rest with plain | ⟨d, child, inside⟩
      · exact Or.inl plain
      · exact Or.inr ⟨d, by simp [child], inside⟩

/-- A segment with a colour is the whole text of a token, in the colour of that token. -/
theorem exists_token_of_coloured {s : Segment} (member : s ∈ t.segments overlay) {c : Colour}
    (coloured : s.colour = some c) : ∃ u ∈ t.listing, u.literal = s.text ∧
      colourOf? overlay u.start u.stop u.kind = some c := by
  induction t using Token.induction with
  | node line start literal kind children value ih =>
    rw [segments_eq] at member
    split at member
    · cases member
    · split at member
      · next own =>
        obtain rfl := List.mem_singleton.1 member
        obtain rfl := Option.some.inj coloured
        exact ⟨_, self_mem_listing _, rfl, own⟩
      · rcases mem_segmentsFrom member with plain | ⟨d, child, inside⟩
        · rw [plain] at coloured
          cases coloured
        · obtain ⟨u, listed, own⟩ := ih d child inside
          exact ⟨u, mem_listing_iff.2 (Or.inr ⟨d, child, listed⟩), own⟩

theorem WellPlaced.highlighted_plain (h : t.WellPlaced) (overlay : List Token) :
    t.highlighted overlay .plain = t.literal := by
  have unpainted : Painting.segmentText .plain = fun s => s.text := by
    funext s
    unfold Painting.segmentText
    split
    · simp [Painting.opening, Painting.closing]
    · rfl
  rw [highlighted, unpainted]
  exact h.flatMap_segments overlay

end Token

/-- Without colours a document is written as it was read. -/
theorem Output.highlight_plain (settings : Settings) (text : Text) :
    Output.highlight (Document.ofText settings text) .plain = ⟨[⟨.plain, text⟩], 0⟩ := by
  have lines : (Document.ofText settings text).trees.map (·.highlighted [] .plain) =
      Text.lines text := by
    rw [Document.trees_ofText, Token.ofLines, List.map_map]
    refine Eq.trans ?_ (List.zipIdx_map_fst 0 (Text.lines text))
    congr 1
    funext numbered
    have placed := ScannedLine.wellPlaced numbered.2 numbered.1 true
    have root := ScannedLine.isRoot numbered.2 numbered.1 true
    exact (placed.highlighted_plain []).trans root.literal_eq
  rw [highlight, lines, Text.lines, Text.join_split]

/-- Highlighting keeps the text of a token, whatever is laid over it. The text is divided into
segments one behind the other; plain output is the text, and painted output is the segments in order,
with the control sequences of one colour around each of those that have one. Such a segment is a
whole token. So a document highlighted without colours is written as it was read. -/
theorem Token.highlighted_division (overlay : List Token) :
    (∀ t : Token, t.WellFormed → t.highlighted overlay .plain = t.literal ∧
      ∃ division : List Segment, division.flatMap (·.text) = t.literal ∧
        (∀ p : Painting, t.highlighted overlay p = division.flatMap fun s =>
          match s.colour with
          | some c => p.opening c ++ s.text ++ p.closing
          | none => s.text) ∧
        ∀ s ∈ division, ∀ c, s.colour = some c → ∃ u ∈ t.descendants, u.literal = s.text ∧
          colourOf? overlay u.start u.stop u.kind = some c) ∧
    (∀ (settings : Settings) (text : Text),
      Output.highlight (Document.ofText settings text) .plain = ⟨[⟨.plain, text⟩], 0⟩) ∧
    ∀ (i : Invocation) (file : Option Text) (environment : Environment) (p : Painting) (text : Text),
      i.command = .highlight file true →
        (i.report environment p (.ok text)).result = .ok ⟨[⟨.plain, text⟩], 0⟩ := by
  refine ⟨fun t wellFormed => ?_, Output.highlight_plain, fun i file environment p text command => ?_⟩
  · have placed := wellFormed.wellPlaced
    refine ⟨placed.highlighted_plain overlay, t.segments overlay, placed.flatMap_segments overlay,
      fun p => rfl, fun s member c coloured => ?_⟩
    obtain ⟨u, listed, own⟩ := exists_token_of_coloured member coloured
    exact ⟨u, mem_descendants_iff.2 listed, own⟩
  · simp only [Invocation.report, command]
    exact congrArg Except.ok (Output.highlight_plain _ text)

/-- A keyword laid over the argument of `f(é)` changes nothing about the text. -/
theorem Token.highlighted_division_call :
    let t : Token := ⟨0, 3, "f(é)".toList, .line,
      [⟨0, 3, ['f'], .semantic .functionName, [], none⟩,
        ⟨0, 4, "(é)".toList, .brackets .round, [⟨0, 5, ['é'], .number, [], none⟩], none⟩], none⟩
    let overlay : List Token := [⟨7, 5, "é)".toList, .semantic .keyword, [], none⟩]
    t.WellFormed ∧ t.highlighted overlay .plain = "f(é)".toList := by
  intro t overlay
  have wellFormed : t.WellFormed := by decide +kernel
  exact ⟨wellFormed, ((highlighted_division overlay).1 t wellFormed).1⟩

end LineTree
