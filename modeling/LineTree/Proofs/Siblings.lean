import LineTree.Proofs.Edges
import LineTree.Proofs.Grammar

/-!
# The tokens in a row

What stands beside what in a line or in a group. Whitespace comes once between other tokens, and it
is empty only where the scan has put it of itself: in front in a group, and behind a token that has
ended. A name is a label exactly behind a label mark. Main statement: `Token.ofLine_siblings`.
-/
namespace LineTree.Token

variable {line : Nat} {text : Text} {a b p t : Token} {earlier later : List Token}

/-- The tokens in a line or group follow one another without a gap. -/
theorem HasForm.tiled (h : p.HasForm text) (filled : p.kind.isFilled) :
    ∃ first last, Tiled first p.children last := by
  rcases Kind.isFilled_iff.1 filled with kind | ⟨b, kind⟩
  · obtain ⟨body, laid, -⟩ := h.framed _ (congrArg Kind.frame? kind)
    exact ⟨_, _, laid.tiled⟩
  · obtain ⟨body, laid, -⟩ := h.framed _ (congrArg Kind.frame? kind)
    exact ⟨_, _, laid.tiled⟩

/-- A group has ended exactly if the last token in it stops short of its end. -/
theorem HasForm.ended_iff_of_group (h : t.HasForm text) {b : Bracket} (kind : t.kind = .brackets b) :
    t.Ended ↔ t.unclosed? = none := by
  obtain ⟨last, final⟩ : ∃ last, t.children.getLast? = some last :=
    ⟨_, List.getLast?_eq_some_getLast (h.filled (by rw [kind]; rfl))⟩
  constructor
  · rintro (⟨f, closer, body, framed, -, laid, literal⟩ | ⟨number, -⟩)
    · obtain rfl := Option.some.inj ((congrArg Kind.frame? kind).symm.trans framed)
      have reach := laid.tiled.stop_getLast final
      have size := closer.utf8Size_pos
      have short : last.stop ≠ t.stop := by
        rw [reach, stop, literal]
        simp only [Text.byteLength_append, Text.byteLength_cons, Text.byteLength_nil]
        omega
      rw [unclosed?, final, Option.map_some, if_neg (by simpa using short)]
    · simp [kind] at number
  · intro closed
    obtain ⟨body, laid, literal⟩ := h.framed _ (congrArg Kind.frame? kind)
    rcases literal with ⟨closer, complete, literal⟩ | ⟨literal, -⟩
    · exact Or.inl ⟨_, closer, body, congrArg Kind.frame? kind, complete, laid, literal⟩
    · have reach : last.stop = t.stop := by
        rw [laid.tiled.stop_getLast final, stop, literal, Text.byteLength_append, Nat.add_assoc]
      rw [unclosed?_eq_some_iff.2 ⟨kind, last, final, reach⟩] at closed
      cases closed

/-- What follows a token begins with the next one. -/
theorem Conforms.longest_before (ha : a.Conforms line text) (hb : b.Conforms line text)
    (next : b.start = a.stop) : ∃ after, a.kind.Longest a.literal (b.literal ++ after) := by
  obtain ⟨before, behind, place, start, longest⟩ := ha.place
  obtain ⟨before', after, place', start', -⟩ := hb.place
  have cut : Text.splitAtByte? text a.stop = some (before ++ a.literal, behind) :=
    Text.splitAtByte?_eq_some_iff.2 ⟨place, by rw [Text.byteLength_append, start, stop]⟩
  have cut' : Text.splitAtByte? text a.stop = some (before', b.literal ++ after) :=
    Text.splitAtByte?_eq_some_iff.2 ⟨by rw [place', List.append_assoc], start'.trans next⟩
  have same := Option.some.inj (cut.symm.trans cut')
  exact ⟨after, (Prod.mk.inj same).2 ▸ longest⟩

/-- The longest whitespace takes in all that is blank behind it. -/
theorem Conforms.not_whitespace_twice (ha : a.Conforms line text) (hb : b.Conforms line text)
    (next : b.start = a.stop) (follows : a.Follows b) (blank : a.kind = .whitespace) :
    b.kind ≠ .whitespace := by
  intro again
  have unended : ¬ a.Ended :=
    not_ended_of_kind (by simp [blank, Kind.frame?]) (by simp [blank])
  obtain ⟨c, more, literal⟩ := List.exists_cons_of_ne_nil (follows.solid unended)
  obtain ⟨after, longest⟩ := ha.longest_before hb next
  have own := ha.form.spelled (congrArg Kind.frame? blank)
  have other := hb.form.spelled (congrArg Kind.frame? again)
  rw [blank] at own longest
  rw [again, literal] at other
  rw [literal] at longest
  refine longest.refuses (.same .whitespace) fun x member => ?_
  rcases List.mem_append.1 member with inside | last
  · exact own x inside
  · obtain rfl := List.mem_singleton.1 last
    exact other x (by simp)

/-- What begins as a name is a label or an identifier. -/
theorem HasForm.name_of_head (h : t.HasForm text) (item : t.kind.isItem) {c : Char}
    (head : t.literal.head? = some c) (name : isNameStart c) :
    t.kind = .label ∨ t.kind = .identifier := by
  obtain ⟨more, literal⟩ := List.head?_eq_some_iff.1 head
  obtain ⟨previous, begun⟩ := h.exists_begunBy item literal
  rw [Kind.begunBy_name name] at begun
  split at begun
  · cases kind : t.kind <;> simp [kind, Kind.origin] at begun ⊢
  · cases kind : t.kind <;> simp [kind, Kind.origin] at begun ⊢

/-- An indent does not begin as a name. -/
theorem HasForm.indent_head (h : t.HasForm text) (kind : t.kind = .indent) {c : Char}
    (head : t.literal.head? = some c) : isNameStart c = false := by
  have spelled := h.spelled (congrArg Kind.frame? kind)
  rw [kind] at spelled
  rw [spelled c (List.mem_of_head? head)]
  decide

/-- Behind the first one only items stand in a line or group. -/
theorem HasForm.isItem_of_later (h : p.HasForm text) (filled : p.kind.isFilled)
    (row : p.children = earlier ++ t :: later) (behind : earlier ≠ []) : t.kind.isItem := by
  have admits := h.admits earlier t later row
  rcases Kind.isFilled_iff.1 filled with kind | ⟨b, kind⟩
  · rw [kind] at admits
    simpa only [Kind.Admits, if_neg behind] using admits
  · rw [kind] at admits
    simpa only [if_neg behind] using admits.1

/-- A line begins with its indent, and a group with whitespace. -/
theorem HasForm.first_child (h : p.HasForm text) (filled : p.kind.isFilled)
    (row : p.children = t :: later) :
    (p.kind = .line ∧ t.kind = .indent) ∨ (p.kind.isBracket ∧ t.kind = .whitespace) := by
  have admits := h.admits [] t later row
  rcases Kind.isFilled_iff.1 filled with kind | ⟨b, kind⟩
  · rw [kind] at admits
    exact Or.inl ⟨kind, admits⟩
  · rw [kind] at admits
    exact Or.inr ⟨by rw [kind]; rfl, admits.1⟩

namespace Grammar

theorem follows_previous (h : p.Grammar line text) (filled : p.kind.isFilled)
    (row : p.children = earlier ++ t :: later) {previous : Token}
    (last : earlier.getLast? = some previous) : previous.Follows t := by
  have chain := (h.neighbourly p p.self_mem_listing filled).1
  rw [row] at chain
  exact (List.isChain_append.1 chain).2.2 previous last t rfl

theorem follows_next (h : p.Grammar line text) (filled : p.kind.isFilled) {next : Token}
    (row : p.children = earlier ++ t :: next :: later) : t.Follows next := by
  have longer : p.children = (earlier ++ [t]) ++ next :: later := by simpa using row
  exact h.follows_previous filled longer List.getLast?_concat

theorem start_of_next (h : p.Grammar line text) (filled : p.kind.isFilled) {next : Token}
    (row : p.children = earlier ++ t :: next :: later) : next.start = t.stop := by
  obtain ⟨first, last, tiled⟩ := h.own.form.tiled filled
  rw [row] at tiled
  exact tiled.adjacent

/-- The last token of a line or group has not ended. -/
theorem exists_next (h : p.Grammar line text) (filled : p.kind.isFilled)
    (row : p.children = earlier ++ t :: later) (ended : t.Ended) :
    ∃ next more, later = next :: more := by
  have settled := (h.neighbourly p p.self_mem_listing filled).2
  cases later with
  | nil => exact (settled t (by simp [row]) ended).elim
  | cons next more => exact ⟨next, more, rfl⟩

theorem whitespace_behind_ended (h : p.Grammar line text) (filled : p.kind.isFilled)
    (row : p.children = earlier ++ t :: later) (ended : t.Ended) :
    ∃ next, later.head? = some next ∧ next.kind = .whitespace := by
  obtain ⟨next, more, rfl⟩ := h.exists_next filled row ended
  exact ⟨next, rfl, (h.follows_next filled row).gap ended⟩

theorem no_whitespace_behind_whitespace (h : p.Grammar line text) (filled : p.kind.isFilled)
    (row : p.children = earlier ++ t :: later) (blank : t.kind = .whitespace) :
    ∀ next ∈ later.head?, next.kind ≠ .whitespace := by
  intro next head
  obtain ⟨more, rfl⟩ := List.head?_eq_some_iff.1 head
  have own := (h.child (c := t) (by simp [row])).own
  have other := (h.child (c := next) (by simp [row])).own
  exact own.not_whitespace_twice other (h.start_of_next filled row) (h.follows_next filled row) blank

/-- Empty whitespace stands in front in a group or behind a token that has ended. -/
theorem origin_of_empty (h : p.Grammar line text) (filled : p.kind.isFilled)
    (row : p.children = earlier ++ t :: later) (blank : t.kind = .whitespace)
    (empty : t.literal = []) :
    (earlier = [] ∧ p.kind.isBracket) ∨
      ∃ previous, earlier.getLast? = some previous ∧ previous.Ended := by
  cases final : earlier.getLast? with
  | none =>
    obtain rfl := List.getLast?_eq_none_iff.1 final
    rcases h.own.form.first_child filled row with ⟨-, indent⟩ | ⟨group, -⟩
    · rw [blank] at indent
      cases indent
    · exact Or.inl ⟨rfl, group⟩
  | some previous =>
    refine Or.inr ⟨previous, rfl, ?_⟩
    by_contra unended
    exact (h.follows_previous filled row final).solid unended empty

/-- A name is a label exactly behind a label mark. -/
theorem kind_of_name (h : p.Grammar line text) (filled : p.kind.isFilled)
    (row : p.children = earlier ++ t :: later) {c : Char} (head : t.literal.head? = some c)
    (name : isNameStart c) :
    t.kind = if earlier.getLast?.map kind = some .labelMark then .label else .identifier := by
  have form := (h.child (c := t) (by simp [row])).own.form
  cases final : earlier.getLast? with
  | none =>
    -- The first token is an indent or whitespace, which no name begins.
    obtain rfl := List.getLast?_eq_none_iff.1 final
    rcases h.own.form.first_child filled row with ⟨-, indent⟩ | ⟨-, blank⟩
    · rw [form.indent_head indent head] at name
      cases name
    · rcases form.name_of_head (by rw [blank]; rfl) head name with kind | kind
      · rw [blank] at kind
        cases kind
      · rw [blank] at kind
        cases kind
  | some previous =>
    have follows := h.follows_previous filled row final
    have behind : earlier ≠ [] := by
      rintro rfl
      cases final
    have item := h.own.form.isItem_of_later filled row behind
    rcases form.name_of_head item head name with kind | kind
    · simp [kind, follows.label kind]
    · simp [kind, follows.name kind]

end Grammar

/-- The law of the tokens in a row. In the line and in every group of it, no two whitespace tokens
are neighbours; whitespace stands behind each token that has ended, even at the end of the row, and
in front in each group; empty whitespace stands nowhere else; and a token that begins as a name is a
label if a label mark stands directly in front of it, and an identifier if not. The groups that have
ended are those in which the last token stops short of the end. -/
theorem ofLine_siblings (line : Nat) (text : Text) {p : Token}
    (member : p ∈ (Token.ofLine line text).descendants)
    (kind : p.kind = .line ∨ ∃ b, p.kind = .brackets b) :
    (∀ b, p.kind = .brackets b →
      ∃ first, p.children.head? = some first ∧ first.kind = .whitespace) ∧
    ∀ earlier t later, p.children = earlier ++ t :: later →
      (t.kind = .whitespace → ∀ next ∈ later.head?, next.kind ≠ .whitespace) ∧
      (t.Ended → ∃ next, later.head? = some next ∧ next.kind = .whitespace) ∧
      (∀ b, t.kind = .brackets b → (t.Ended ↔ t.unclosed? = none)) ∧
      (t.kind = .whitespace → t.literal = [] → (earlier = [] ∧ p.kind.isBracket) ∨
        ∃ previous, earlier.getLast? = some previous ∧ previous.Ended) ∧
      ∀ c, t.literal.head? = some c → isNameStart c →
        t.kind = if earlier.getLast?.map Token.kind = some .labelMark then .label
          else .identifier := by
  have filled := Kind.isFilled_iff.2 kind
  have grammar : p.Grammar line text :=
    (grammar_ofLine line text).inside (mem_descendants_iff.1 member)
  refine ⟨fun b group => ?_, fun earlier t later row => ⟨?_, ?_, fun b group => ?_, ?_, ?_⟩⟩
  · obtain ⟨first, later, row⟩ := List.exists_cons_of_ne_nil (grammar.own.form.filled filled)
    refine ⟨first, by rw [row]; rfl, ?_⟩
    rcases grammar.own.form.first_child filled row with ⟨outer, -⟩ | ⟨-, blank⟩
    · rw [group] at outer
      cases outer
    · exact blank
  · exact grammar.no_whitespace_behind_whitespace filled row
  · exact grammar.whitespace_behind_ended filled row
  · exact (grammar.child (c := t) (by simp [row])).own.form.ended_iff_of_group group
  · exact grammar.origin_of_empty filled row
  · exact fun c => grammar.kind_of_name filled row

/-- The number in the open group `[1f` has whitespace behind it at the end of the line. -/
theorem ofLine_siblings_number :
    let gap (start : Nat) : Token := ⟨0, start, [], .whitespace, [], none⟩
    let number : Token := ⟨0, 1, "1f".toList, .number, [], none⟩
    let group : Token := ⟨0, 0, "[1f".toList, .brackets .square, [gap 1, number, gap 3], none⟩
    group ∈ (Token.ofLine 0 "[1f".toList).descendants ∧ number.Ended ∧
      ∃ next, [gap 3].head? = some next ∧ next.kind = .whitespace := by
  intro gap number group
  have member : group ∈ (Token.ofLine 0 "[1f".toList).descendants :=
    mem_descendants_iff.2 (by decide +kernel)
  have ended : number.Ended := Or.inr ⟨rfl, ['1'], 'f', rfl, rfl⟩
  have law := (ofLine_siblings 0 _ member (Or.inr ⟨.square, rfl⟩)).2 [gap 1] number [gap 3] rfl
  exact ⟨member, ended, law.2.1 ended⟩

end LineTree.Token
