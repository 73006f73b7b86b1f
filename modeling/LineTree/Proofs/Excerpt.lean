import LineTree.Proofs.Rebased

/-!
# Tokens as lines of their own

Scanning the text of a token as a line of its own finds the token again. Only a name may change its
kind there, since no label mark stands in front of it, and only a token that has ended has empty
whitespace behind it. Main statements: `Token.Grammar.grammatical_alone`, `Token.ofLine_excerpt`.
-/
namespace LineTree.Token

variable {line number : Nat} {text : Text} {t : Token}

/-- The empty indent of a line without one. -/
def emptyIndent (number : Nat) : Token := ⟨number, 0, [], .indent, [], none⟩

/-- Empty whitespace, as it stands behind a token that has ended. -/
def emptyGap (number start : Nat) : Token := ⟨number, start, [], .whitespace, [], none⟩

/-- The token in a line that is made of its text alone, where a name is never a label. -/
def alone (number : Nat) (t : Token) : Token :=
  { t.rebased number t.start with kind := if t.kind = .label then .identifier else t.kind }

theorem alone_eq_rebased (plain : t.kind ≠ .label) : t.alone number = t.rebased number t.start := by
  rw [alone, if_neg plain, rebased_eq]

theorem grammar_leaf {k : Kind} {start : Nat} {literal : Text} (frameless : k.frame? = none)
    (spelled : k.Spells literal) (place : ∃ before after, text = before ++ literal ++ after ∧
      Text.byteLength before = start ∧ k.Longest literal after)
    (ends : k.EndsLine literal → start + Text.byteLength literal = Text.byteLength text) :
    Grammar line text ⟨line, start, literal, k, [], none⟩ := by
  have hollow : k.isFilled = false := by cases k <;> first | rfl | cases frameless
  have own : Conforms line text ⟨line, start, literal, k, [], none⟩ :=
    ⟨rfl, rfl, place, k.admitsAll_nil, fun filled => absurd (hollow.symm.trans filled) (by simp),
      fun f framed => absurd (frameless.symm.trans framed) (by simp), fun _ => spelled, ends⟩
  constructor
  all_goals
    intro u member
    obtain rfl : u = ⟨line, start, literal, k, [], none⟩ := by
      simpa [listing, listingAll] using member
  · exact own
  · exact neighbourly_of_not_filled hollow

/-- A label is grammatical as an identifier, and any other token as what it is. -/
theorem Grammar.alone (h : t.Grammar line text) (number : Nat) :
    (t.alone number).Grammar number t.literal := by
  by_cases label : t.kind = .label
  · have frameless : t.kind.frame? = none := by rw [label]; rfl
    have spelled := h.own.form.spelled frameless
    rw [label] at spelled
    have same : t.alone number = ⟨number, 0, t.literal, .identifier, [], none⟩ := by
      rw [Token.alone, if_pos label, rebased_eq]
      simp [h.own.value_eq, h.own.form.admits.eq_nil frameless]
    rw [same]
    exact grammar_leaf rfl spelled ⟨[], [], by simp, rfl, Kind.longest_nil _ _⟩ (fun ends => ends.elim)
  · rw [alone_eq_rebased label]
    exact h.rebased number

/-- Of all items only whitespace may be empty. -/
theorem HasForm.solid (h : t.HasForm text) (item : t.kind.isItem) (kind : t.kind ≠ .whitespace) :
    t.literal ≠ [] := by
  intro empty
  cases own : t.kind with
  | line | indent | escape | commentContent | semantic _ => simp [own, Kind.isItem] at item
  | whitespace => exact kind own
  | quoted _ | brackets _ | comment | docComment =>
    obtain ⟨behind, literal⟩ := h.front (congrArg Kind.frame? own)
    simp [empty] at literal
  | _ =>
    have spelled := h.spelled (congrArg Kind.frame? own)
    simp [own, empty, Kind.Spells] at spelled

theorem HasForm.isItem (h : t.HasForm text)
    (kind : t.kind ∉ [.line, .indent, .whitespace, .escape, .commentContent]) :
    t.kind.isItem ∧ t.kind ≠ .whitespace := by
  cases own : t.kind with
  | line | indent | whitespace | escape | commentContent => simp [own] at kind
  | semantic _ =>
    have spelled := h.spelled (congrArg Kind.frame? own)
    rw [own] at spelled
    exact spelled.elim
  | _ => exact ⟨rfl, by simp⟩

/-- Items behind an indent make a grammatical line. -/
theorem grammatical_line {indent : Token} {items : List Token} {literal : Text}
    (grammar : ∀ t ∈ indent :: items, t.Grammar number literal) (first : indent.kind = .indent)
    (isItem : ∀ t ∈ items, t.kind.isItem)
    (laid : Laid (fun _ => False) 0 literal (indent :: items))
    (chain : (indent :: items).IsChain Follows)
    (settled : ∀ t ∈ (indent :: items).getLast?, ¬ t.Ended) :
    (⟨number, 0, literal, .line, indent :: items, none⟩ : Token).Grammatical number := by
  have admits : Kind.line.AdmitsAll (indent :: items) := by
    rintro (_ | ⟨x, earlier⟩) child later same
    · obtain ⟨rfl, -⟩ := List.cons.inj same
      exact first
    · have later := (List.cons.inj same).2
      exact isItem child (by simp [later])
  have own : Conforms number literal ⟨number, 0, literal, .line, indent :: items, none⟩ := by
    refine ⟨rfl, rfl, ⟨[], [], by simp, rfl, Kind.longest_nil _ _⟩, admits, by simp, ?_,
      fun frameless => absurd frameless nofun, fun ends => ends.elim⟩
    rintro f framed
    obtain rfl := Option.some.inj framed
    exact ⟨literal, laid, Or.inr ⟨rfl, by simp [Token.stop]⟩⟩
  refine ⟨⟨rfl, rfl, rfl, rfl, rfl⟩, fun u member => ?_, fun u member => ?_⟩
  · rcases mem_listing_iff.1 member with rfl | ⟨c, child, inside⟩
    · exact own
    · exact (grammar c child).conforms u inside
  · rcases mem_listing_iff.1 member with rfl | ⟨c, child, inside⟩
    · exact fun _ => ⟨chain, settled⟩
    · exact (grammar c child).neighbourly u inside

/-- A token in a line of its own has ended where it has ended in any other line. -/
theorem Grammar.ended_alone_iff (h : t.Grammar line text) :
    (t.alone number).Ended ↔ t.Ended := by
  by_cases label : t.kind = .label
  · have open_label : ¬ t.Ended := not_ended_of_kind (by simp [label, Kind.frame?]) (by simp [label])
    have open_name : ¬ (t.alone number).Ended :=
      not_ended_of_kind (by simp [Token.alone, label, Kind.frame?]) (by simp [Token.alone, label])
    exact iff_of_false open_name open_label
  · rw [alone_eq_rebased label]
    exact ended_rebased_iff le_rfl fun c member => h.start_le (mem_listing_of_child member)

theorem grammar_emptyIndent (first : ∀ c ∈ text.head?, c ≠ '\t') :
    (emptyIndent number).Grammar number text := by
  refine grammar_leaf rfl (fun c member => nomatch member) ⟨[], text, rfl, rfl, ?_⟩
    (fun ends => ends.elim)
  rintro k' (_ | ⟨c, more⟩) rest turns same nonempty spelled
  · exact nonempty rfl
  · obtain rfl : k' = .indent := by cases turns; rfl
    exact first c (by simp [same]) (spelled c (by simp))

theorem grammar_emptyGap :
    (emptyGap number (Text.byteLength text)).Grammar number text :=
  grammar_leaf rfl (fun c member => nomatch member)
    ⟨text, [], by simp, rfl, Kind.longest_nil _ _⟩ (fun ends => ends.elim)

theorem not_ended_emptyIndent : ¬ (emptyIndent number).Ended :=
  not_ended_of_kind (by simp [emptyIndent, Kind.frame?]) (by simp [emptyIndent])

theorem not_ended_emptyGap {start : Nat} : ¬ (emptyGap number start).Ended :=
  not_ended_of_kind (by simp [emptyGap, Kind.frame?]) (by simp [emptyGap])

@[simp]
theorem alone_literal : (t.alone number).literal = t.literal := by simp [alone]

@[simp]
theorem alone_start : (t.alone number).start = 0 := by simp [alone]

theorem alone_isItem (item : t.kind.isItem) : (t.alone number).kind.isItem := by
  rw [alone]
  split
  · rfl
  · exact item

theorem alone_kind_ne_label : (t.alone number).kind ≠ .label := by
  rw [alone]
  split
  · simp
  · assumption

/-- A solid token may be the first one in a line. -/
theorem follows_emptyIndent (solid : t.literal ≠ []) :
    (emptyIndent number).Follows (t.alone number) where
  gap := fun ended => (not_ended_emptyIndent ended).elim
  solid := fun _ => by rwa [alone_literal]
  label := fun label => (alone_kind_ne_label label).elim
  name := fun _ => by simp [emptyIndent]

/-- What stands in the line behind the token: empty whitespace if the token has ended. -/
def Trails (number : Nat) (t : Token) (behind : List Token) : Prop :=
  t.Ended ∧ behind = [emptyGap number (Text.byteLength t.literal)] ∨ ¬ t.Ended ∧ behind = []

/-- The line that is made of the text of an item alone. -/
theorem Grammar.grammatical_alone (h : t.Grammar line text) (item : t.kind.isItem)
    (kind : t.kind ≠ .whitespace) {behind : List Token} (trails : t.Trails number behind) :
    (⟨number, 0, t.literal, .line, emptyIndent number :: t.alone number :: behind, none⟩ :
      Token).Grammatical number := by
  have form := h.own.form
  have indent : (emptyIndent number).Grammar number t.literal := by
    refine grammar_emptyIndent ?_
    rintro c first rfl
    obtain ⟨more, literal⟩ := List.head?_eq_some_iff.1 first
    exact kind (form.whitespace_of_blank item literal (by decide))
  have first : (emptyIndent number).Follows (t.alone number) :=
    follows_emptyIndent (form.solid item kind)
  have own : Laid (fun _ => False) 0 t.literal [emptyIndent number, t.alone number] := by
    simpa [emptyIndent] using
      Laid.token (t := emptyIndent number) rfl (.token (alone_start (t := t)) (.nil _))
  rcases trails with ⟨ended, rfl⟩ | ⟨unended, rfl⟩
  · have last : (t.alone number).Follows (emptyGap number (Text.byteLength t.literal)) :=
      follows_gap (h.ended_alone_iff.2 ended) _
    have laid := own.append_token (Nat.zero_add _).symm
      (t := emptyGap number (Text.byteLength t.literal))
    refine grammatical_line ?_ rfl ?_ ?_ (by simp [first, last])
      (by simpa using not_ended_emptyGap)
    · simpa using ⟨indent, h.alone number, grammar_emptyGap⟩
    · simpa using ⟨alone_isItem item, rfl⟩
    · simpa [emptyGap] using laid
  · refine grammatical_line ?_ rfl ?_ own (by simp [first]) ?_
    · simpa using ⟨indent, h.alone number⟩
    · simpa using alone_isItem item
    · simpa using fun ended => unended (h.ended_alone_iff.1 ended)

theorem Grammar.ofLine_children (h : t.Grammar line text) (item : t.kind.isItem)
    (kind : t.kind ≠ .whitespace) {behind : List Token} (trails : t.Trails number behind) :
    (Token.ofLine number t.literal).children =
      emptyIndent number :: t.alone number :: behind :=
  congrArg children (h.grammatical_alone item kind trails).ofLine_eq

/-- Groups with one text are made of the same tokens, wherever they stand. -/
theorem Grammar.rebased_eq_of_group {a b : Token} {line' : Nat} {text' : Text}
    (ha : a.Grammar line text) (hb : b.Grammar line' text') (group : a.kind.isBracket)
    (group' : b.kind.isBracket) (same : a.literal = b.literal) (number : Nat) :
    a.rebased number a.start = b.rebased number b.start := by
  obtain ⟨p, bracket⟩ := Option.isSome_iff_exists.1 group
  obtain ⟨q, bracket'⟩ := Option.isSome_iff_exists.1 group'
  have kind := Kind.bracket?_eq_some_iff.1 bracket
  have kind' := Kind.bracket?_eq_some_iff.1 bracket'
  obtain ⟨behind, literal⟩ := ha.own.form.front (congrArg Kind.frame? kind)
  obtain ⟨behind', literal'⟩ := hb.own.form.front (congrArg Kind.frame? kind')
  have opener : p.opener = q.opener := by
    rw [same, literal'] at literal
    exact (List.cons.inj literal).1.symm
  have alike : p = q := Option.some.inj
    ((Bracket.ofOpener?_eq_some_iff.2 rfl).symm.trans (Bracket.ofOpener?_eq_some_iff.2 opener))
  have grammar := ha.rebased number
  rw [same] at grammar
  exact grammar.eq_of_kind (hb.rebased number) (by simp) (by simp [kind, kind', alike])

theorem grammar_of_mem (member : t ∈ (Token.ofLine line text).descendants) :
    t.Grammar line text :=
  (grammar_ofLine line text).inside (mem_descendants_iff.1 member)

/-- Every token that is more than space or a part of a literal or comment is found again in the line
that is made of its text alone, behind an empty indent, with whitespace behind it exactly if it has
ended. So the tokens in a group depend on the text of the group, and not on what is around it. -/
theorem ofLine_excerpt (member : t ∈ (Token.ofLine line text).descendants)
    (kind : t.kind ∉ [.line, .indent, .whitespace, .escape, .commentContent]) (number : Nat) :
    ((t.Ended → (Token.ofLine number t.literal).children =
        [emptyIndent number, t.alone number, emptyGap number (Text.byteLength t.literal)]) ∧
      (¬ t.Ended → (Token.ofLine number t.literal).children =
        [emptyIndent number, t.alone number])) ∧
    ∀ (line' : Nat) (text' : Text), ∀ u ∈ (Token.ofLine line' text').descendants,
      t.kind.isBracket → u.kind.isBracket → u.literal = t.literal →
        u.rebased number u.start = t.rebased number t.start := by
  have grammar := grammar_of_mem member
  obtain ⟨item, solid⟩ := grammar.own.form.isItem kind
  refine ⟨⟨fun ended => ?_, fun unended => ?_⟩, fun line' text' u member' group group' same => ?_⟩
  · exact grammar.ofLine_children item solid (Or.inl ⟨ended, rfl⟩)
  · exact grammar.ofLine_children item solid (Or.inr ⟨unended, rfl⟩)
  · exact (grammar_of_mem member').rebased_eq_of_group grammar group' group same number

/-- The group `(a)` is the same in `x(a)` and in `[b (a)`. -/
theorem ofLine_excerpt_group :
    let group (start : Nat) : Token := ⟨0, start, "(a)".toList, .brackets .round,
      [emptyGap 0 (start + 1), ⟨0, start + 1, ['a'], .identifier, [], none⟩], none⟩
    (Token.ofLine 7 "(a)".toList).children =
        [emptyIndent 7, (group 1).alone 7, emptyGap 7 3] ∧
      (group 3).rebased 7 3 = (group 1).rebased 7 1 := by
  intro group
  have member : group 1 ∈ (Token.ofLine 0 "x(a)".toList).descendants :=
    mem_descendants_iff.2 (by decide)
  have member' : group 3 ∈ (Token.ofLine 0 "[b (a)".toList).descendants :=
    mem_descendants_iff.2 (by decide +kernel)
  have name : Laid (fun _ => False) 2 ['a'] [⟨0, 2, ['a'], .identifier, [], none⟩] :=
    Laid.token (t := ⟨0, 2, ['a'], .identifier, [], none⟩) rfl (.nil 3)
  have ended : (group 1).Ended := by
    refine Or.inl ⟨_, ')', ['a'], rfl, rfl, ?_, rfl⟩
    exact Laid.token (t := emptyGap 0 2) rfl name
  have excerpt := ofLine_excerpt member (by decide) 7
  exact ⟨excerpt.1.1 ended, excerpt.2 0 _ (group 3) member' rfl rfl rfl⟩

end LineTree.Token
