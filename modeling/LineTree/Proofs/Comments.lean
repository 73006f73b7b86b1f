import LineTree.Proofs.Announced
import LineTree.Proofs.Decoding
import LineTree.Proofs.Findings
import LineTree.Proofs.Slashes
import LineTree.Token.Covered

/-!
# Comments

A scan opens a comment at the leftmost two slashes outside of literals, and nothing ends it but the
end of the line. So a line has at most one comment, which is the last token in each token around it
and keeps the groups there from being closed. Main statements: `Move.comment_opened`,
`Scan.commented_run`, `Token.ofLine_comments`.
-/
namespace LineTree

variable {line offset : Nat} {text rest : Text} {c : Char}

namespace Kind

theorem not_isComment_begunBy (previous : Kind) (c : Char) :
    (previous.begunBy c).isComment = false := by
  have mode := Mode.ofKinds_begunBy previous c []
  have other : Mode.behind .slash c ≠ .comment := by grind [Mode.behind]
  cases kind : previous.begunBy c with
  | comment | docComment =>
    rw [kind] at mode
    exact (other mode.symm).elim
  | _ => rfl

/-- What follows in the line never ends a comment. -/
theorem not_isComment_of_ends {k : Kind}
    (ends : k.effect c = .endBefore ∨ k.effect c = .endAfter ∨ k.effect c = .endWithGap) :
    k.isComment = false := by
  cases k with
  | comment => grind [effect]
  | docComment => grind [effect]
  | _ => rfl

theorem not_isComment_of_nest {k k' : Kind} (effect : k.effect c = .nest k') :
    k'.isComment = false := by
  rcases effect_nest effect with ⟨q, -, -, rfl⟩ | ⟨-, -, rfl⟩ | ⟨-, rfl⟩ <;> rfl

end Kind

open OpenToken Token

/-- The tokens that are closed on the way are no comments. -/
theorem Move.closed_uncommented {stack next : List OpenToken} {events : List ScanEvent}
    (move : Move line offset c stack next events) :
    ∀ t ∈ events.filterMap ScanEvent.closed?, t.kind.isComment = false := by
  intro t member
  cases move with
  | extend | become | nest => cases member
  | endAfter effect =>
    obtain rfl := List.mem_singleton.1 member
    exact Kind.not_isComment_of_ends (Or.inr (Or.inl effect))
  | endWithGap effect =>
    obtain rfl := List.mem_singleton.1 member
    exact Kind.not_isComment_of_ends (Or.inr (Or.inr effect))
  | mismatch effect | openGroup effect | begin effect =>
    obtain rfl := List.mem_singleton.1 member
    exact Kind.not_isComment_of_ends (Or.inl effect)
  | closeGroup effect kind closer =>
    rcases List.mem_cons.1 member with rfl | last
    · exact Kind.not_isComment_of_ends (Or.inl effect)
    · obtain rfl := List.mem_singleton.1 last
      exact congrArg Kind.isComment kind

/-- A closed child does not change the kind and the place of the token around it. -/
theorem OpenToken.exists_of_mem_absorb {o parent p : OpenToken} {below : List OpenToken}
    (member : p ∈ parent.absorb o line :: below) :
    ∃ q ∈ parent :: below, p.kind = q.kind ∧ p.start = q.start := by
  rcases List.mem_cons.1 member with rfl | later
  · exact ⟨parent, List.mem_cons_self, rfl, rfl⟩
  · exact ⟨p, List.mem_cons_of_mem _ later, rfl, rfl⟩

/-- An open comment was open before, or has just been made of a slash by another one. -/
theorem Move.comment_opened {stack next : List OpenToken} {events : List ScanEvent}
    (move : Move line offset c stack next events) {p : OpenToken} (member : p ∈ next)
    (comment : p.kind.isComment) :
    (∃ o ∈ stack, o.kind.isComment ∧ p.start = o.start) ∨
      ∃ o below, stack = o :: below ∧ o.kind = .slash ∧ c = '/' ∧ p.start = o.start := by
  -- a token is no comment when it has just begun
  have fresh {q : OpenToken} {stack : List OpenToken} (other : q.kind.isComment = false)
      (member : p ∈ q :: stack) : p ∈ stack := by
    rcases List.mem_cons.1 member with rfl | earlier
    · cases other.symm.trans comment
    · exact earlier
  have kept {o parent : OpenToken} {below outer : List OpenToken}
      (member : p ∈ parent.absorb o line :: below) (inside : parent :: below <:+ outer) :
      ∃ o ∈ outer, o.kind.isComment ∧ p.start = o.start := by
    obtain ⟨q, listed, kind, start⟩ := OpenToken.exists_of_mem_absorb member
    exact ⟨q, inside.subset listed, kind ▸ comment, start⟩
  cases move with
  | @extend o below effect =>
    rcases List.mem_cons.1 member with rfl | later
    · exact Or.inl ⟨o, List.mem_cons_self, comment, rfl⟩
    · exact Or.inl ⟨p, List.mem_cons_of_mem _ later, comment, rfl⟩
  | @become o below k effect =>
    rcases List.mem_cons.1 member with rfl | later
    · rcases Kind.effect_become effect with ⟨-, -, rfl⟩ | ⟨kind, -, -⟩ | ⟨kind, slash, -⟩ |
        ⟨-, -, rfl⟩
      · cases comment
      · exact Or.inl ⟨o, List.mem_cons_self, by rw [kind]; rfl, rfl⟩
      · exact Or.inr ⟨o, below, rfl, kind, slash, rfl⟩
      · cases comment
    · exact Or.inl ⟨p, List.mem_cons_of_mem _ later, comment, rfl⟩
  | nest effect =>
    exact Or.inl ⟨p, fresh (Kind.not_isComment_of_nest effect) member, comment, rfl⟩
  | endAfter effect => exact Or.inl (kept member (List.suffix_cons _ _))
  | endWithGap effect => exact Or.inl (kept (fresh rfl member) (List.suffix_cons _ _))
  | @closeGroup o group outer below b effect kind closer =>
    exact Or.inl (kept (fresh rfl member) ⟨[o, group], rfl⟩)
  | mismatch effect closer other =>
    exact Or.inl (kept (fresh rfl member) (List.suffix_cons _ _))
  | openGroup effect opener =>
    exact Or.inl (kept (fresh rfl (fresh rfl member)) (List.suffix_cons _ _))
  | begin effect closer opener =>
    exact Or.inl (kept (fresh (Kind.not_isComment_begunBy _ c) member) (List.suffix_cons _ _))

namespace Scan

/-- What a scan knows of comments: an open one stands where the characters read so far open it. -/
structure Commented (s : Scan) : Prop where
  mode : Mode.ofStack s.openTokens = modeBehind s.consumed
  opened : ∀ o ∈ s.openTokens, o.kind.isComment → ∃ before after,
    s.consumed = before ++ '/' :: '/' :: after ∧ modeBehind before = .code ∧
      o.start = Text.byteLength before

/-- An open slash was read in code. -/
theorem Commented.slash {s : Scan} (h : s.Commented) (sound : Sound line text rest s.openTokens)
    (kind : s.top.kind = .slash) : ∃ before, s.consumed = before ++ ['/'] ∧
      modeBehind before = .code ∧ s.top.start = Text.byteLength before := by
  have slash : modeBehind s.consumed = .slash := by
    rw [← h.mode, openTokens, Mode.ofStack, List.map_cons, kind]
    rfl
  obtain ⟨before, read, code⟩ := exists_of_slash slash
  have literal := sound.steady.grows.spelled (by rw [kind]; rfl)
  rw [kind] at literal
  have size : Text.byteLength s.top.read = 1 := by
    rw [← Text.byteLength_reverse, show s.top.read.reverse = ['/'] from literal]
    rfl
  have place := sound.stop
  rw [← Text.byteLength_reverse] at place
  have whole : Text.byteLength s.consumed = s.top.start + 1 := size ▸ place
  refine ⟨before, read, code, ?_⟩
  rw [read, Text.byteLength_append] at whole
  exact (Nat.add_right_cancel whole).symm

theorem commented_step {s : Scan} (h : Invariant line text (c :: rest) s) (known : s.Commented) :
    (s.step c).Commented := by
  obtain ⟨events, move, -⟩ := h.move
  have read := consumed_step s c
  constructor
  · rw [move.mode h.sound, known.mode, read, modeBehind_concat]
  · intro p member comment
    rcases move.comment_opened member comment with ⟨o, listed, inner, start⟩ |
      ⟨o, below, stack, kind, rfl, start⟩
    · obtain ⟨before, after, earlier, code, place⟩ := known.opened o listed inner
      exact ⟨before, after ++ [c], by simp [read, earlier], code, start.trans place⟩
    · obtain ⟨rfl, -⟩ := List.cons.inj stack
      obtain ⟨before, earlier, code, place⟩ := known.slash h.sound kind
      exact ⟨before, [], by simp [read, earlier], code, start.trans place⟩

theorem commented_run {s : Scan} {read : Text} (h : Invariant line text (read ++ rest) s)
    (known : s.Commented) : (s.run read).Commented := by
  induction read generalizing s with
  | nil => exact known
  | cons c read ih => exact ih (invariant_step h) (commented_step h known)

theorem commented_end (line : Nat) (text : Text) : ((start line).run text).Commented := by
  refine commented_run (invariant_whole line text) ⟨rfl, fun o member comment => ?_⟩
  simp only [openTokens, start, List.mem_cons, List.not_mem_nil, or_false] at member
  rcases member with rfl | rfl <;> cases comment

/-- No comment is made known in front of the end of the line. -/
theorem closed_uncommented (line : Nat) (text : Text) :
    ∀ t ∈ ((start line).run text).closed, t.kind.isComment = false :=
  forall_closed_run (fun move _ _ => move.closed_uncommented) (invariant_whole line text)
    fun _ member => nomatch member

end Scan

/-- What is closed at the end of the line was open there. -/
theorem exists_of_mem_collapsed {o : OpenToken} {below : List OpenToken} {t : Token}
    (member : t ∈ collapsed line o below) :
    ∃ p ∈ o :: below, t.kind = p.kind ∧ t.start = p.start := by
  induction below generalizing o with
  | nil => cases member
  | cons parent below ih =>
    rcases List.mem_cons.1 member with rfl | later
    · exact ⟨o, List.mem_cons_self, rfl, rfl⟩
    · obtain ⟨p, listed, kind, start⟩ := ih later
      obtain ⟨q, inside, kind', start'⟩ := OpenToken.exists_of_mem_absorb listed
      exact ⟨q, List.mem_cons_of_mem o inside, kind.trans kind', start.trans start'⟩

/-- A scan in the mode of a comment has an open one, which the end of the line closes. -/
theorem Sound.exists_comment {o : OpenToken} {below : List OpenToken}
    (h : Sound line text rest (o :: below)) (mode : Mode.ofStack (o :: below) = .comment) :
    ∃ t ∈ collapsed line o below, t.kind.isComment := by
  have inner : o.kind.isComment ∨ o.kind = .commentContent := by
    rw [Mode.ofStack, List.map_cons] at mode
    generalize below.map (·.kind) = kinds at mode
    cases kind : o.kind with
    | comment | docComment => exact Or.inl rfl
    | commentContent => exact Or.inr rfl
    | escape =>
      rw [kind] at mode
      cases kinds with
      | nil => cases mode
      | cons k kinds => cases k <;> cases mode
    | _ =>
      rw [kind] at mode
      cases mode
  cases h with
  | line kind _ _ => simp [kind, Kind.isComment] at inner
  | @inside _ parent below within _ around =>
    rcases inner with comment | content
    · exact ⟨o.toToken line, List.mem_cons_self, comment⟩
    · have comment := within.admits.comment_of_content content
      cases around with
      | line kind _ _ =>
        rw [kind] at comment
        cases comment
      | inside => exact ⟨(parent.absorb o line).toToken line, by simp [collapsed], comment⟩

namespace Token

variable {t u p : Token}

theorem commentText?_eq (comment : u.kind.isComment) : u.commentText? =
    some (((u.children.find? (·.kind = .commentContent)).map literal).getD []) := by
  unfold commentText?
  rcases Kind.isComment_iff.1 comment with kind | kind
  all_goals
    rw [kind]
    cases u.children.find? (·.kind = .commentContent) <;> rfl

/-- The text of a comment is its content. -/
theorem HasContent.commentText? {slashes content : Text} (h : u.HasContent slashes content)
    (comment : u.kind.isComment) : u.commentText? = some content := by
  rw [commentText?_eq comment]
  rcases h.2 with ⟨empty, children⟩ | ⟨-, c, children, kind, literal, -⟩
  · simp [empty, children]
  · simp [children, kind, literal]

/-- A comment reaches the end of the line, and its text is all that follows its slashes. -/
theorem Grammar.comment (h : u.Grammar line text) (comment : u.kind.isComment) :
    u.stop = Text.byteLength text ∧ ∃ content, u.literal = '/' :: '/' :: content ∧
      (u.kind = .docComment ↔ content.head? = some '/') ∧
      u.commentText? = some (if u.kind = .docComment then content.tail else content) := by
  have inside : ∀ c ∈ u.children, c.HasForm text := fun c child => (h.child child).own.form
  have form : u.Lexical text := by
    refine h.own.form.lexical inside ?_ ?_ <;>
      rcases Kind.isComment_iff.1 comment with kind | kind <;> simp [kind, Kind.isSemantic]
  unfold Lexical at form
  rcases Kind.isComment_iff.1 comment with kind | kind
  · simp only [kind] at form ⊢
    obtain ⟨stop, content, behind, other⟩ := form
    exact ⟨stop, content, behind.1, by simp [other], behind.commentText? comment⟩
  · simp only [kind] at form ⊢
    obtain ⟨stop, content, behind⟩ := form
    exact ⟨stop, '/' :: content, behind.1, by simp, behind.commentText? comment⟩

theorem solid_of_isComment (comment : u.kind.isComment) : u.kind.isItem ∧ u.kind ≠ .whitespace := by
  rcases Kind.isComment_iff.1 comment with kind | kind <;> simp [kind, Kind.isItem]

/-- A comment holds its content only. -/
theorem Grammar.uncommented_inside (h : t.Grammar line text) (comment : t.kind.isComment) {c : Token}
    (child : c ∈ t.children) (inside : u ∈ c.listing) : u.kind.isComment = false := by
  obtain ⟨earlier, admits⟩ := h.own.form.admits.mem child
  have content : c.kind = .commentContent := by
    rcases Kind.isComment_iff.1 comment with kind | kind <;> rw [kind] at admits
    · exact admits.2.1
    · exact admits.2
  have childless := (h.child child).own.form.admits.eq_nil (congrArg Kind.frame? content)
  rcases mem_listing_iff.1 inside with rfl | ⟨d, deeper, -⟩
  · exact congrArg Kind.isComment content
  · rw [childless] at deeper
    cases deeper

/-- Behind the end of a comment there is no place for another one. -/
theorem Grammar.length_comments (h : t.Grammar line text) :
    (t.listing.filter (·.kind.isComment)).length ≤ 1 := by
  have none : (t.listing.filter (·.kind.isComment)).Pairwise fun _ _ => False := by
    rw [List.pairwise_filter]
    refine h.listing_apart.imp_of_mem fun {a b} left right apart comment comment' => ?_
    have first := h.inside left
    have second := (h.inside right).own
    rcases apart with ⟨c, child, inside⟩ | behind
    · exact absurd comment' (by simp [first.uncommented_inside comment child inside])
    · obtain ⟨item, solid⟩ := solid_of_isComment comment'
      have nonempty := second.form.start_lt_stop item solid
      have reach := (first.comment comment).1
      have bound := second.stop_le
      omega
  generalize t.listing.filter (·.kind.isComment) = comments at none
  cases none with
  | nil => exact Nat.zero_le 1
  | @cons a rest apart _ =>
    cases rest with
    | nil => exact le_rfl
    | cons b rest => exact (apart b List.mem_cons_self).elim

/-- Nothing follows a comment in its row. -/
theorem Grammar.getLast?_of_comment (h : p.Grammar line text) (child : u ∈ p.children)
    (comment : u.kind.isComment) : p.children.getLast? = some u := by
  obtain ⟨earlier, later, row⟩ := List.append_of_mem child
  have admits := h.own.form.admits earlier u later row
  obtain ⟨f, framed, endless, filled, number⟩ : ∃ f, u.kind.frame? = some f ∧ f.last? = none ∧
      p.kind.isFilled ∧ u.kind ≠ .number := by
    rcases Kind.isComment_iff.1 comment with kind | kind
    all_goals exact ⟨_, congrArg Kind.frame? kind, rfl, admits.filled (by simp [kind]) (by simp [kind]),
      by simp [kind]⟩
  have unended : ¬ u.Ended := not_ended_of_kind (fun g same => by
    rw [framed] at same
    exact Option.some.inj same ▸ endless) number
  have alone : later = [] := by
    by_contra followed
    exact unended ((h.ended_iff_followed filled row framed).2 followed)
  rw [row, alone]
  exact List.getLast?_concat

/-- Of the tokens in a row the last one ends last. -/
theorem Nests.stop_le_getLast (h : p.Nests) {c last : Token} (child : c ∈ p.children)
    (final : p.children.getLast? = some last) : c.stop ≤ last.stop := by
  obtain ⟨front, row⟩ := List.getLast?_eq_some_iff.1 final
  have ordered := h.1
  rw [row, List.pairwise_append] at ordered
  rw [row, List.mem_append, List.mem_singleton] at child
  rcases child with earlier | rfl
  · exact (ordered.2.2 c earlier last (by simp)).trans (Nat.le_add_right _ _)
  · exact le_rfl

/-- A group around a token that reaches the end of the line has no closing bracket. -/
theorem Grammar.unclosed_around (h : p.Grammar line text) {b : Bracket} (kind : p.kind = .brackets b)
    {c : Token} (child : c ∈ p.children) (inside : u ∈ c.listing)
    (reach : u.stop = Text.byteLength text) : p.unclosed? = some b := by
  obtain ⟨last, final, ends⟩ := h.own.form.last_of_group kind
  rcases ends with ⟨open_end, -⟩ | ⟨closed, -⟩
  · exact unclosed?_eq_some_iff.2 ⟨kind, last, final, open_end⟩
  · have inner : u.stop ≤ c.stop := (h.child child).stop_le inside
    have row : c.stop ≤ last.stop := h.wellPlaced.nests.stop_le_getLast child final
    have bound : p.stop ≤ Text.byteLength text := h.own.stop_le
    omega

/-- What begins where a token does that reaches the end of the line is the literal of that token. -/
theorem Conforms.literal_eq_of_end (h : u.Conforms line text) (reach : u.stop = Text.byteLength text)
    {before after : Text} (place : text = before ++ after)
    (start : Text.byteLength before = u.start) : u.literal = after := by
  have slice : Text.slice? text u.start u.stop = some after :=
    Text.slice?_eq_some_iff.2 ⟨before, [], by simp [place], start, by
      rw [reach, place, Text.byteLength_append, start]⟩
  exact Option.some.inj (h.slice?_eq.symm.trans slice)

/-- Every comment of a line stands where the characters in front of it open one. -/
theorem place_of_comment (member : u ∈ (ofLine line text).listing) (comment : u.kind.isComment) :
    ∃ before after, text = before ++ '/' :: '/' :: after ∧ modeBehind before = .code ∧
      u.start = Text.byteLength before := by
  have read : ((Scan.start line).run text).consumed = text := Scan.consumed_run _ _
  rcases ScannedLine.mem_listing_tree_iff.1 member with rfl | early | late
  · cases (kind_ofLine line text ▸ comment : Kind.line.isComment)
  · exact absurd comment (by simp [Scan.closed_uncommented line text u early])
  · obtain ⟨o, opened, kind, start⟩ := exists_of_mem_collapsed late
    obtain ⟨before, after, place, code, here⟩ :=
      (Scan.commented_end line text).opened o opened (kind ▸ comment)
    exact ⟨before, after, read ▸ place, code, start.trans here⟩

theorem exists_comment (line : Nat) (mode : modeBehind text = .comment) :
    ∃ u ∈ (ofLine line text).listing, u.kind.isComment := by
  have known := (Scan.commented_end line text).mode
  have read : ((Scan.start line).run text).consumed = text := Scan.consumed_run _ _
  rw [read, mode] at known
  obtain ⟨u, closed, comment⟩ := (Scan.invariant_end line text).sound.exists_comment known
  exact ⟨u, ScannedLine.mem_listing_tree_iff.2 (Or.inr (Or.inr closed)), comment⟩

/-- A line has a comment exactly if two slashes stand outside of literals, and only one. It goes
from the leftmost such slashes to the end of the line, is the last token where it stands, and no
group around it is closed. A third slash makes it a doc comment. Its text is all that follows its
slashes. -/
theorem ofLine_comments (line : Nat) (text : Text) :
    let t := Token.ofLine line text
    let comments := t.descendants.filter (·.kind.isComment)
    comments.length ≤ 1 ∧
    (comments ≠ [] ↔ ∃ before after, OpensComment text before after) ∧
    (∀ u ∈ comments, ∃ before after, FirstComment text before after ∧
      u.start = Text.byteLength before ∧ u.stop = Text.byteLength text ∧
      (∃ p ∈ t.descendants, u ∈ p.children) ∧
      (∀ p ∈ t.descendants, u ∈ p.children → p.children.getLast? = some u) ∧
      (∀ p ∈ t.descendants, u ∈ p.descendants → ∀ b, p.kind = .brackets b →
        p.unclosed? = some b) ∧
      (u.kind = .docComment ↔ after.head? = some '/') ∧
      u.commentText? = some (if u.kind = .docComment then after.tail else after)) ∧
    ∀ u : Token, u.kind.isComment = false → u.commentText? = none := by
  intro t comments
  have grammar : t.Grammar line text := grammar_ofLine line text
  have same : comments = t.listing.filter (·.kind.isComment) :=
    congrArg (List.filter _) t.descendants_eq_listing
  have listed {u : Token} : u ∈ comments ↔ u ∈ t.listing ∧ u.kind.isComment := by
    rw [same, List.mem_filter]
  refine ⟨by rw [same]; exact grammar.length_comments, ?_, fun u member => ?_, fun u other => ?_⟩
  · rw [exists_opensComment_iff]
    constructor
    · intro nonempty
      obtain ⟨u, member⟩ := List.exists_mem_of_ne_nil comments nonempty
      obtain ⟨inside, comment⟩ := listed.1 member
      obtain ⟨before, after, place, code, -⟩ := place_of_comment inside comment
      exact modeBehind_eq_comment_iff.2 ⟨before, after, place, code⟩
    · intro mode
      obtain ⟨u, inside, comment⟩ := exists_comment line mode
      exact List.ne_nil_of_mem (listed.2 ⟨inside, comment⟩)
  · obtain ⟨inside, comment⟩ := listed.1 member
    obtain ⟨before, after, place, code, start⟩ := place_of_comment inside comment
    have own := grammar.inside inside
    obtain ⟨stop, content, literal, doc, written⟩ := own.comment comment
    have slashes := own.own.literal_eq_of_end stop place start.symm
    obtain rfl : content = after := by simpa [literal] using slashes
    refine ⟨before, content, .of_code place code, start, stop, ?_, fun p outer child => ?_,
      fun p outer below b kind => ?_, doc, written⟩
    · rcases mem_listing_iff.1 inside with rfl | ⟨c, child, deeper⟩
      · rw [kind_ofLine] at comment
        cases comment
      · obtain ⟨p, outer, parent⟩ := exists_parent child deeper
        exact ⟨p, mem_descendants_iff.2 outer, parent⟩
    · exact (grammar.inside (mem_descendants_iff.1 outer)).getLast?_of_comment child comment
    · rcases mem_listing_iff.1 (mem_descendants_iff.1 below) with rfl | ⟨c, child, deeper⟩
      · rw [kind] at comment
        cases comment
      · have around := grammar.inside (mem_descendants_iff.1 outer)
        exact around.unclosed_around kind child deeper stop
  · unfold commentText?
    split
    · next kind => simp [kind, Kind.isComment] at other
    · next kind => simp [kind, Kind.isComment] at other
    · rfl

/-- Slashes in a literal open nothing. Behind it a third slash makes a doc comment, and the group
around it stays open. -/
theorem ofLine_comments_doc :
    let text : Text := "'//'(é ///x)".toList
    let content : Token := ⟨0, 11, ['x', ')'], .commentContent, [], none⟩
    let u : Token := ⟨0, 8, "///x)".toList, .docComment, [content], none⟩
    u ∈ (Token.ofLine 0 text).descendants.filter (·.kind.isComment) ∧
    (∃ before after, FirstComment text before after ∧ Text.byteLength before = 8 ∧
      after.head? = some '/') ∧
    ∃ p ∈ (Token.ofLine 0 text).descendants, p.children.getLast? = some u := by
  intro text content u
  have member : u ∈ (Token.ofLine 0 text).descendants.filter (·.kind.isComment) := by
    rw [List.mem_filter]
    exact ⟨mem_descendants_iff.2 (by decide +kernel), rfl⟩
  obtain ⟨-, -, law, -⟩ := ofLine_comments 0 text
  obtain ⟨before, after, first, start, -, ⟨p, outer, child⟩, last, -, doc, -⟩ := law u member
  exact ⟨member, ⟨before, after, first, start.symm, doc.1 rfl⟩, p, outer, last p outer child⟩

end Token

end LineTree
