import LineTree.Proofs.Grammar

/-!
# Tokens moved to another line

A token can be moved, with all tokens inside it, to the line that is made of its text alone. What
the grammar asks of a token looks no further than that text, so the token stays grammatical. Main
statements: `Token.ended_rebased_iff`, `Token.Grammar.rebased`.
-/
namespace LineTree.Token

mutual

/-- The token and all tokens inside it in the line of the given number, at offsets that are counted
from byte `origin`. -/
def rebased (number origin : Nat) : Token → Token
  | ⟨_, start, literal, kind, children, value⟩ =>
    ⟨number, start - origin, literal, kind, rebasedAll number origin children, value⟩

def rebasedAll (number origin : Nat) : List Token → List Token
  | [] => []
  | t :: rest => t.rebased number origin :: rebasedAll number origin rest

end

theorem rebasedAll_eq_map (number origin : Nat) (l : List Token) :
    rebasedAll number origin l = l.map (rebased number origin) := by
  induction l with
  | nil => rfl
  | cons t l ih => rw [rebasedAll, ih, List.map_cons]

variable {line number origin : Nat} {text : Text} {t u : Token}

theorem rebased_eq (number origin : Nat) (t : Token) : t.rebased number origin =
    { t with
      line := number
      start := t.start - origin
      children := t.children.map (rebased number origin) } := by
  cases t
  rw [rebased, rebasedAll_eq_map]

@[simp]
theorem rebased_line : (t.rebased number origin).line = number := by rw [rebased_eq]

@[simp]
theorem rebased_start : (t.rebased number origin).start = t.start - origin := by rw [rebased_eq]

@[simp]
theorem rebased_literal : (t.rebased number origin).literal = t.literal := by rw [rebased_eq]

@[simp]
theorem rebased_kind : (t.rebased number origin).kind = t.kind := by rw [rebased_eq]

@[simp]
theorem rebased_children :
    (t.rebased number origin).children = t.children.map (rebased number origin) := by
  rw [rebased_eq]

@[simp]
theorem rebased_value : (t.rebased number origin).value = t.value := by rw [rebased_eq]

/-- The tokens inside are moved along. -/
theorem mem_listing_rebased (member : u ∈ (t.rebased number origin).listing) :
    ∃ v ∈ t.listing, u = v.rebased number origin := by
  induction t using Token.induction with
  | node line start literal kind children value ih =>
    rcases mem_listing_iff.1 member with rfl | ⟨c, child, inside⟩
    · exact ⟨_, self_mem_listing _, rfl⟩
    · rw [rebased_children, List.mem_map] at child
      obtain ⟨d, own, rfl⟩ := child
      obtain ⟨v, deeper, same⟩ := ih d own inside
      exact ⟨v, mem_listing_iff.2 (Or.inr ⟨d, own, deeper⟩), same⟩

end LineTree.Token

namespace LineTree.Laid

variable {outside : Char → Prop} {number origin offset : Nat} {text : Text} {tokens : List Token}

theorem rebased (number : Nat) (h : Laid outside offset text tokens) (behind : origin ≤ offset) :
    Laid outside (offset - origin) text (tokens.map (Token.rebased number origin)) := by
  induction h with
  | nil offset => exact .nil _
  | @char offset c text tokens free _ ih =>
    refine .char free ?_
    rw [← Nat.sub_add_comm behind]
    exact ih (by omega)
  | @token offset t text tokens placed _ ih =>
    have stop_eq : (t.rebased number origin).stop = t.stop - origin := by
      simp only [Token.stop, Token.rebased_start, Token.rebased_literal]
      omega
    have moved : (t.rebased number origin).start = offset - origin := by
      rw [Token.rebased_start, placed]
    have literal : t.literal = (t.rebased number origin).literal := Token.rebased_literal.symm
    rw [List.map_cons, literal]
    refine .token moved ?_
    rw [stop_eq]
    exact ih (by simp only [Token.stop]; omega)

/-- Tokens that stand behind the origin were laid where they came from. -/
theorem of_rebased {moved : List Token} {first : Nat} (h : Laid outside first text moved)
    (same : moved = tokens.map (Token.rebased number origin))
    (behind : ∀ t ∈ tokens, origin ≤ t.start) : Laid outside (first + origin) text tokens := by
  induction h generalizing tokens with
  | nil first =>
    rw [List.map_eq_nil_iff.1 same.symm]
    exact .nil _
  | @char first c text moved free _ ih =>
    refine .char free ?_
    rw [Nat.add_right_comm]
    exact ih same behind
  | @token first m text moved placed _ ih =>
    obtain ⟨t, rest, rfl, rfl, later⟩ := List.map_eq_cons_iff.1 same.symm
    have bound := behind t (by simp)
    rw [Token.rebased_start] at placed
    have stop_eq : t.stop = (t.rebased number origin).stop + origin := by
      simp only [Token.stop, Token.rebased_start, Token.rebased_literal]
      omega
    rw [Token.rebased_literal]
    refine .token (by omega) ?_
    rw [stop_eq]
    exact ih later.symm fun t member => behind t (by simp [member])

end LineTree.Laid

namespace LineTree

namespace Token

variable {line number origin : Nat} {text : Text} {t u : Token}

/-- Moving a token does not change whether its own last character has ended it. -/
theorem ended_rebased_iff (behind : origin ≤ u.start)
    (inside : ∀ c ∈ u.children, origin ≤ c.start) :
    (u.rebased number origin).Ended ↔ u.Ended := by
  simp only [Ended, rebased_kind, rebased_literal, rebased_start, rebased_children]
  refine or_congr_left ?_
  constructor
  -- The way back needs more: offsets in front of the origin would have been cut off at zero.
  · rintro ⟨f, last, body, framed, complete, laid, literal⟩
    refine ⟨f, last, body, framed, complete, ?_, literal⟩
    have back := laid.of_rebased rfl inside
    rwa [Nat.add_right_comm, Nat.sub_add_cancel behind] at back
  · rintro ⟨f, last, body, framed, complete, laid, literal⟩
    refine ⟨f, last, body, framed, complete, ?_, literal⟩
    have moved := laid.rebased number (le_trans behind (Nat.le_add_right _ _))
    rwa [Nat.sub_add_comm behind] at moved

theorem Follows.rebased {a b : Token} (number : Nat) (h : a.Follows b)
    (ended : (a.rebased number origin).Ended ↔ a.Ended) :
    (a.rebased number origin).Follows (b.rebased number origin) where
  gap := fun own => rebased_kind.trans (h.gap (ended.1 own))
  solid := fun own => by
    rw [rebased_literal]
    exact h.solid fun old => own (ended.2 old)
  label := fun kind => rebased_kind.trans (h.label (rebased_kind.symm.trans kind))
  name := fun kind => by
    rw [rebased_kind] at kind ⊢
    exact h.name kind

end Token

theorem Kind.Admits.rebased {parent : Kind} {earlier : List Token} {child : Token}
    (number origin : Nat) (h : parent.Admits earlier child) :
    parent.Admits (earlier.map (Token.rebased number origin)) (child.rebased number origin) := by
  cases parent with
  | line | brackets _ | quoted _ | comment | docComment => simpa [Kind.Admits] using h
  | _ => exact h.elim

/-- A text that is the longest one in a line is so in every part of the line that it stands in. -/
theorem Kind.Longest.of_append {k : Kind} {literal after more : Text}
    (h : k.Longest literal (after ++ more)) : k.Longest literal after := by
  intro k' longer rest turns same
  exact h k' longer (rest ++ more) turns (by rw [same, List.append_assoc])

namespace Token

variable {line number origin : Nat} {text text' : Text} {t u : Token}

/-- The form of a token depends on its place by the end of the line alone. -/
theorem HasForm.rebased (number : Nat) (h : u.HasForm text) (behind : origin ≤ u.start)
    (stop : u.stop = Text.byteLength text →
      (u.rebased number origin).stop = Text.byteLength text') :
    (u.rebased number origin).HasForm text' where
  admits := by
    intro earlier child later same
    rw [rebased_children] at same
    obtain ⟨earlier, rest, children, rfl, tail⟩ := List.map_eq_append_iff.1 same
    obtain ⟨child, later, rfl, rfl, -⟩ := List.map_eq_cons_iff.1 tail
    rw [rebased_kind]
    exact (h.admits earlier child later children).rebased number origin
  filled := fun filled => by
    rw [rebased_kind] at filled
    simpa using h.filled filled
  framed := fun f framed => by
    rw [rebased_kind] at framed
    obtain ⟨body, laid, literal⟩ := h.framed f framed
    have moved := laid.rebased number (le_trans behind (Nat.le_add_right _ _))
    rw [Nat.sub_add_comm behind] at moved
    refine ⟨body, by simpa using moved, ?_⟩
    rw [rebased_literal]
    exact literal.imp_right fun cut => ⟨cut.1, stop cut.2⟩
  spelled := fun frameless => by
    rw [rebased_kind] at frameless ⊢
    rw [rebased_literal]
    exact h.spelled frameless
  endsLine := fun ends => by
    rw [rebased_kind, rebased_literal] at ends
    exact stop (h.endsLine ends)

/-- Each token covers its own part of the text that it is inside of. -/
theorem WellPlaced.mem_place (h : t.WellPlaced) (member : u ∈ t.listing) :
    ∃ before after, t.literal = before ++ u.literal ++ after ∧
      u.start = t.start + Text.byteLength before := by
  induction t using Token.induction with
  | node line start literal kind children value ih =>
    rcases mem_listing_iff.1 member with rfl | ⟨c, child, inside⟩
    · exact ⟨[], [], by simp, by simp⟩
    · obtain ⟨before, after, place, start⟩ := (h _ (self_mem_listing _)).mem_place child
      obtain ⟨before', after', place', start'⟩ := ih c child (h.child child) inside
      refine ⟨before ++ before', after' ++ after, by simp_all, ?_⟩
      rw [start', start, Text.byteLength_append, Nat.add_assoc]

theorem Grammar.wellPlaced (h : t.Grammar line text) : t.WellPlaced :=
  fun u member => (h.conforms u member).form.laid

theorem Grammar.start_le (h : t.Grammar line text) (member : u ∈ t.listing) :
    t.start ≤ u.start := by
  obtain ⟨before, after, -, start⟩ := h.wellPlaced.mem_place member
  omega

/-- Inside another token a token conforms to the grammar of that token's text. -/
theorem Grammar.conforms_rebased (h : t.Grammar line text) (number : Nat)
    (member : u ∈ t.listing) :
    (u.rebased number t.start).Conforms number t.literal := by
  obtain ⟨before, after, inner, offset⟩ := h.wellPlaced.mem_place member
  obtain ⟨front, behind, outer, start, -⟩ := h.own.place
  obtain ⟨left, right, place, here, longest⟩ := (h.conforms u member).place
  -- The token's own place and its place inside `t` cut the line at the same byte.
  have cut : Text.splitAtByte? text u.start =
      some (front ++ before, u.literal ++ (after ++ behind)) :=
    Text.splitAtByte?_eq_some_iff.2
      ⟨by rw [outer, inner]; simp, by rw [Text.byteLength_append, start, offset]⟩
  have cut' : Text.splitAtByte? text u.start = some (left, u.literal ++ right) :=
    Text.splitAtByte?_eq_some_iff.2 ⟨by rw [place, List.append_assoc], here⟩
  have same : right = after ++ behind := by
    rw [cut', Option.some.injEq, Prod.mk.injEq] at cut
    exact List.append_cancel_left cut.2
  refine ⟨rebased_line, rebased_value.trans (h.conforms u member).value_eq,
    ⟨before, after, by rw [rebased_literal, inner], by rw [rebased_start]; omega, ?_⟩,
    (h.conforms u member).form.rebased number (h.start_le member) fun stop => ?_⟩
  · rw [rebased_kind, rebased_literal]
    rw [same] at longest
    exact longest.of_append
  · simp only [Token.stop, rebased_start, rebased_literal, outer, inner,
      Text.byteLength_append] at stop ⊢
    omega

/-- Moving a token keeps its neighbours. -/
theorem Grammar.neighbourly_rebased (h : t.Grammar line text) (number : Nat)
    (behind : origin ≤ t.start) : (t.rebased number origin).Neighbourly := by
  intro filled
  rw [rebased_kind] at filled
  obtain ⟨chain, settled⟩ := h.neighbourly t t.self_mem_listing filled
  have ended : ∀ c ∈ t.children, (c.rebased number origin).Ended ↔ c.Ended := fun c member => by
    have inside := mem_listing_of_child member
    refine ended_rebased_iff (le_trans behind (h.start_le inside)) fun d deeper => ?_
    exact le_trans behind (h.start_le (mem_listing_trans (mem_listing_of_child deeper) inside))
  rw [rebased_children]
  refine ⟨?_, fun last final => ?_⟩
  · refine (List.isChain_map _).2 (chain.imp_of_mem_imp fun a b own _ follows => ?_)
    exact follows.rebased number (ended a own)
  · rw [List.getLast?_map] at final
    obtain ⟨c, own, rfl⟩ := Option.map_eq_some_iff.1 final
    exact fun old => settled c own ((ended c (List.mem_of_getLast? own)).1 old)

/-- A token and all tokens inside it stay grammatical in the line that is made of its text alone. -/
theorem Grammar.rebased (h : t.Grammar line text) (number : Nat) :
    (t.rebased number t.start).Grammar number t.literal where
  conforms := fun u member => by
    obtain ⟨v, listed, rfl⟩ := mem_listing_rebased member
    exact h.conforms_rebased number listed
  neighbourly := fun u member => by
    obtain ⟨v, listed, rfl⟩ := mem_listing_rebased member
    exact (h.inside listed).neighbourly_rebased number (h.start_le listed)

end Token
end LineTree
