import LineTree.Proofs.Neighbours
import LineTree.Proofs.Origin

/-!
# The grammar of a line

A tree is grammatical if every token in it has the form of its kind, is the longest one at its place
and may stand behind its neighbour. No scan is mentioned. Tokens are then settled from left to right
and from the outside in, so that a text has one grammatical tree at most; a scan finds it. Main
statements: `Token.Grammar.eq_of_kind`, `Token.grammatical_iff_ofLine`.
-/
namespace LineTree

variable {line : Nat} {text : Text}

namespace Kind.Longest

variable {k k' : Kind} {a b behind after : Text}

/-- The next character does not make a token of the longest text. -/
theorem refuses {c : Char} (h : k.Longest a (c :: after)) (turns : k.TurnsInto k') :
    ¬ k'.Spells (a ++ [c]) :=
  h k' [c] after turns rfl (by simp)

/-- Of two texts at one place, each the longest of their kind, none is longer. -/
theorem eq (la : k.Longest a behind)
    (lb : k.Longest b after) (sa : k.Spells a) (sb : k.Spells b)
    (same : a ++ behind = b ++ after) : a = b := by
  rcases List.append_eq_append_iff.1 same with ⟨gap, longer, next⟩ | ⟨gap, longer, next⟩
  · by_cases empty : gap = []
    · rw [longer, empty, List.append_nil]
    · exact (la k gap after (.same k) next empty (longer ▸ sb)).elim
  · by_cases empty : gap = []
    · rw [longer, empty, List.append_nil]
    · exact (lb k gap behind (.same k) next empty (longer ▸ sa)).elim

/-- Where a position stands, a number is not the longest one: it does not reach the comma. -/
theorem not_position (la : number.Longest a behind) (sa : number.Spells a) (sb : position.Spells b)
    (same : a ++ behind = b ++ after) : False := by
  have digits : ',' ∉ a := fun member => by
    rcases sa.number_chars member with digit | unit
    · exact absurd digit (by decide)
    · exact absurd unit (by decide)
  have comma : ',' ∈ b := by
    obtain ⟨first, left, right, literal, -⟩ := sb
    simp [literal]
  rcases List.append_eq_append_iff.1 same with ⟨gap, longer, next⟩ | ⟨gap, longer, -⟩
  · have nonempty : gap ≠ [] := by
      rintro rfl
      exact digits (by simpa [longer] using comma)
    exact la .position gap after .position next nonempty (longer ▸ sb)
  · exact digits (by simp [longer, comma])

end Kind.Longest

namespace Token

/-- The token and all tokens inside it stand in the line `text` as the grammar wants them. -/
structure Grammar (line : Nat) (text : Text) (t : Token) : Prop where
  conforms : ∀ u ∈ t.listing, u.Conforms line text
  neighbourly : ∀ u ∈ t.listing, u.Neighbourly

/-- The token is the root of a tree that the grammar allows for its literal. -/
structure Grammatical (line : Nat) (t : Token) : Prop where
  root : ScannedLine.IsRoot line t.literal t
  grammar : t.Grammar line t.literal

variable {a b t : Token}

theorem Grammar.own (h : t.Grammar line text) : t.Conforms line text :=
  h.conforms t t.self_mem_listing

theorem Grammar.inside {u : Token} (h : t.Grammar line text) (member : u ∈ t.listing) :
    u.Grammar line text where
  conforms := fun _ deeper => h.conforms _ (mem_listing_trans deeper member)
  neighbourly := fun _ deeper => h.neighbourly _ (mem_listing_trans deeper member)

theorem Grammar.child {c : Token} (h : t.Grammar line text) (member : c ∈ t.children) :
    c.Grammar line text :=
  h.inside (mem_listing_of_child member)

/-- Tokens at one place are not of two kinds of which the one outgrows the other. -/
theorem Grammar.not_outgrown (ha : a.Grammar line text) (hb : b.Grammar line text)
    (start : a.start = b.start) : ¬ a.kind.Outgrown b.kind := by
  obtain ⟨behind, after, same, longest, -⟩ := ha.own.together hb.own start
  have spelled := ha.own.form.spelled
  have spelled' := hb.own.form.spelled
  have front := fun f framed => hb.own.form.front (f := f) framed
  -- Each time the text of the longer token shows how the shorter one goes on.
  rintro (⟨number, position⟩ | ⟨slash, comment⟩ | ⟨comment, docComment⟩ | ⟨colon, mark⟩)
  · rw [number] at spelled longest
    rw [position] at spelled'
    exact longest.not_position (spelled rfl) (spelled' rfl) same
  · rw [slash] at spelled longest
    have literal : a.literal = ['/'] := spelled rfl
    obtain ⟨more, literal'⟩ : ∃ more, b.literal = '/' :: '/' :: more := by
      rcases comment with comment | docComment
      · exact front _ (congrArg Kind.frame? comment)
      · obtain ⟨more, same⟩ := front _ (congrArg Kind.frame? docComment)
        exact ⟨'/' :: more, same⟩
    rw [literal, literal'] at same
    have next : behind = '/' :: (more ++ after) := (List.cons.inj same).2
    rw [literal, next] at longest
    exact longest.refuses .comment ⟨[], rfl, by simp⟩
  · have lexical : a.Lexical text :=
      ha.own.form.lexical (fun c member => (ha.child member).own.form) (by simp [comment])
        (by simp [comment, Kind.isSemantic])
    simp only [Lexical, comment] at lexical
    obtain ⟨-, content, ⟨literal, -⟩, plain⟩ := lexical
    obtain ⟨more, literal'⟩ := front _ (congrArg Kind.frame? docComment)
    rw [literal, literal'] at same
    have next : content ++ behind = '/' :: (more ++ after) :=
      (List.cons.inj (List.cons.inj same).2).2
    cases content with
    | nil =>
      rw [comment, literal, ← List.nil_append behind, next] at longest
      exact longest.refuses .docComment ⟨[], rfl⟩
    | cons d content => exact plain (by rw [(List.cons.inj next).1]; rfl)
  · rw [colon] at spelled longest
    rw [mark] at spelled'
    have literal : a.literal = [':'] := spelled rfl
    have literal' : b.literal = [':', ':'] := spelled' rfl
    rw [literal, literal'] at same
    have next : behind = ':' :: after := (List.cons.inj same).2
    rw [literal, next] at longest
    exact longest.refuses .labelMark rfl

/-- Items at one place, behind the same neighbour, are of one kind. -/
theorem Follows.kind_eq {p : Token} (fa : p.Follows a) (fb : p.Follows b)
    (ha : a.Grammar line text) (hb : b.Grammar line text) (item : a.kind.isItem)
    (item' : b.kind.isItem) (start : a.start = b.start) : a.kind = b.kind := by
  by_cases ended : p.Ended
  · rw [fa.gap ended, fb.gap ended]
  · obtain ⟨c, more, literal⟩ := List.exists_cons_of_ne_nil (fa.solid ended)
    obtain ⟨d, more', literal'⟩ := List.exists_cons_of_ne_nil (fb.solid ended)
    obtain ⟨behind, after, same, -, -⟩ := ha.own.together hb.own start
    rw [literal, literal'] at same
    obtain rfl : c = d := (List.cons.inj same).1
    have origin : a.kind.origin = b.kind.origin :=
      (ha.own.form.begunBy_eq item literal fa.label fa.name).symm.trans
        (hb.own.form.begunBy_eq item' literal' fb.label fb.name)
    rcases Kind.eq_or_outgrown origin with same | shorter | longer
    · exact same
    · exact (ha.not_outgrown hb start shorter).elim
    · exact (hb.not_outgrown ha start.symm longer).elim

end Token

/-- The tokens of a literal or comment begin with characters that are neither free nor the last. -/
def Frame.Begins (f : Frame) (t : Token) : Prop :=
  ∃ c more, t.literal = c :: more ∧ ¬ f.free c ∧ f.last? ≠ some c

namespace Laid

variable {f : Frame} {first : Nat} {body body' rest rest' : Text} {xs ys : List Token}

/-- Where one text has ended, another one of the same frame has ended as well. -/
theorem eq_nil_of_stop (hy : Laid f.free first body' ys) (same : rest = body' ++ rest')
    (stop : ∀ c ∈ rest.head?, f.last? = some c)
    (sharp : ∀ last, f.last? = some last → ¬ f.free last) (begins : ∀ t ∈ ys, f.Begins t) :
    ys = [] ∧ body' = [] := by
  cases hy with
  | nil => exact ⟨rfl, rfl⟩
  | @char _ c text _ free _ =>
    have last := stop c (by simp [same])
    exact (sharp c last free).elim
  | @token _ t text _ _ _ =>
    obtain ⟨c, more, literal, -, other⟩ := begins t (by simp)
    exact (other (stop c (by simp [same, literal]))).elim

/-- Free characters and tokens are told apart by how they begin. -/
theorem unique (hx : Laid f.free first body xs) (hy : Laid f.free first body' ys)
    (same : body ++ rest = body' ++ rest') (stop : ∀ c ∈ rest.head?, f.last? = some c)
    (stop' : ∀ c ∈ rest'.head?, f.last? = some c)
    (sharp : ∀ last, f.last? = some last → ¬ f.free last) (begins : ∀ t ∈ xs, f.Begins t)
    (begins' : ∀ t ∈ ys, f.Begins t)
    (agree : ∀ x ∈ xs, ∀ y ∈ ys, x.start = y.start → x = y) : xs = ys ∧ body = body' := by
  -- How the text goes on tells which constructor the other one is built by.
  induction hx generalizing body' ys with
  | nil first =>
    obtain ⟨rfl, rfl⟩ := hy.eq_nil_of_stop same stop sharp begins'
    exact ⟨rfl, rfl⟩
  | @char first c body xs free hx ih =>
    cases hy with
    | nil => exact absurd (hx.char free |>.eq_nil_of_stop same.symm stop' sharp begins).2 (by simp)
    | @char _ d _ _ _ hy =>
      obtain ⟨rfl, next⟩ := List.cons.inj same
      obtain ⟨rfl, rfl⟩ := ih hy next begins begins' agree
      exact ⟨rfl, rfl⟩
    | @token _ y _ _ _ _ =>
      obtain ⟨d, more, literal, bound, -⟩ := begins' y (by simp)
      rw [literal] at same
      rw [(List.cons.inj same).1] at free
      exact (bound free).elim
  | @token first x body xs placed hx ih =>
    obtain ⟨c, more, literal, bound, other⟩ := begins x (by simp)
    cases hy with
    | nil =>
      have next : rest' = x.literal ++ body ++ rest := same.symm
      exact (other (stop' c (by simp [next, literal]))).elim
    | @char _ d _ _ free _ =>
      rw [literal] at same
      rw [(List.cons.inj same).1] at bound
      exact (bound free).elim
    | @token _ y _ ys placed' hy =>
      obtain rfl := agree x (by simp) y (by simp) (placed.trans placed'.symm)
      rw [List.append_assoc, List.append_assoc] at same
      obtain ⟨rfl, rfl⟩ := ih hy (List.append_cancel_left same)
        (fun t member => begins t (by simp [member]))
        (fun t member => begins' t (by simp [member]))
        (fun x member y member' => agree x (by simp [member]) y (by simp [member']))
      exact ⟨rfl, rfl⟩

end Laid

/-- The items of a line or group, in order, behind the neighbour `p`. Behind them stands the last
character of the frame or nothing, and none of them begins with that character. -/
structure Row (f : Frame) (first : Nat) (p : Token) (items : List Token) (body rest : Text) :
    Prop where
  laid : Laid (fun _ => False) first body items
  chain : (p :: items).IsChain Token.Follows
  settled : ∀ t ∈ (p :: items).getLast?, ¬ t.Ended
  stop : ∀ c ∈ rest.head?, f.last? = some c
  foreign : ∀ t ∈ items, ∀ c ∈ t.literal.head?, f.last? ≠ some c

namespace Row

variable {f : Frame} {first : Nat} {p x : Token} {xs ys : List Token} {body body' rest rest' : Text}

theorem nil_body (h : Row f first p [] body rest) : body = [] := by
  cases h.laid with
  | nil => rfl
  | char free _ => exact free.elim

theorem cons_body (h : Row f first p (x :: xs) body rest) :
    ∃ behind, body = x.literal ++ behind ∧ x.start = first ∧ Row f x.stop x xs behind rest := by
  cases h.laid with
  | char free _ => exact free.elim
  | token placed behind =>
    refine ⟨_, rfl, placed, behind, h.chain.tail, fun t final => ?_, h.stop, fun t member => ?_⟩
    · exact h.settled t (by simpa [List.getLast?_cons_cons] using final)
    · exact h.foreign t (by simp [member])

/-- Where one row has ended, no item follows in another one. -/
theorem no_item (h : Row f first p [] body rest) (other : Row f first p (x :: xs) body' rest')
    (same : body ++ rest = body' ++ rest') : False := by
  have solid := (List.isChain_cons_cons.1 other.chain).1.solid (h.settled p rfl)
  obtain ⟨c, more, literal⟩ := List.exists_cons_of_ne_nil solid
  obtain ⟨behind, rfl, -, -⟩ := other.cons_body
  have next : rest = x.literal ++ behind ++ rest' := by simpa [h.nil_body] using same
  exact other.foreign x (by simp) c (by simp [literal]) (h.stop c (by simp [next, literal]))

theorem unique (hx : Row f first p xs body rest) (hy : Row f first p ys body' rest')
    (same : body ++ rest = body' ++ rest') (agree : ∀ x ∈ xs, ∀ y ∈ ys, x.start = y.start →
      ∀ p : Token, p.Follows x → p.Follows y → x = y) : xs = ys ∧ body = body' := by
  -- The neighbour goes along with the induction: the kind of the next item hangs on it.
  induction xs generalizing first p body body' ys with
  | nil =>
    cases ys with
    | nil => exact ⟨rfl, hx.nil_body.trans hy.nil_body.symm⟩
    | cons y ys => exact (hx.no_item hy same).elim
  | cons x xs ih =>
    cases ys with
    | nil => exact (hy.no_item hx same.symm).elim
    | cons y ys =>
      have follows := (List.isChain_cons_cons.1 hx.chain).1
      have follows' := (List.isChain_cons_cons.1 hy.chain).1
      obtain ⟨behind, rfl, start, tail⟩ := hx.cons_body
      obtain ⟨behind', rfl, start', tail'⟩ := hy.cons_body
      obtain rfl := agree x (by simp) y (by simp) (start.trans start'.symm) p follows follows'
      rw [List.append_assoc, List.append_assoc] at same
      obtain ⟨rfl, rfl⟩ := ih tail tail' (List.append_cancel_left same)
        (fun x member y member' => agree x (by simp [member]) y (by simp [member']))
      exact ⟨rfl, rfl⟩

end Row

namespace Token

variable {a b t : Token} {f : Frame} {body rest : Text}

/-- The token holds its children in `body`. What follows on the line is nothing, or it begins with
the last character of the token. -/
structure Holds (t : Token) (f : Frame) (body rest : Text) : Prop where
  laid : Laid f.free (t.start + Text.byteLength f.front) body t.children
  stop : ∀ c ∈ rest.head?, f.last? = some c
  literal : t.literal = f.front ++ body ++ rest.take 1

theorem Conforms.exists_holds (h : t.Conforms line text) (framed : t.kind.frame? = some f) :
    ∃ before body rest, t.Holds f body rest ∧
      Text.splitAtByte? text t.start = some (before, f.front ++ (body ++ rest)) := by
  obtain ⟨before, after, place, start, -⟩ := h.place
  obtain ⟨body, laid, literal⟩ := h.form.framed f framed
  rcases literal with ⟨last, complete, literal⟩ | ⟨literal, stop⟩
  · refine ⟨before, body, last :: after, ⟨laid, ?_, by simpa using literal⟩,
      Text.splitAtByte?_eq_some_iff.2 ⟨by simp [place, literal], start⟩⟩
    intro c next
    obtain rfl : last = c := Option.some.inj next
    exact complete
  · have final : after = [] := by
      rw [Token.stop, place, Text.byteLength_append, Text.byteLength_append] at stop
      exact (Text.byteLength_eq_zero_iff after).1 (by omega)
    exact ⟨before, body, [], ⟨laid, by simp, by simpa using literal⟩,
      Text.splitAtByte?_eq_some_iff.2 ⟨by simp [place, literal, final], start⟩⟩

/-- Tokens of one frame at one place hold their children in front of the same text. -/
theorem Conforms.hold_together (ha : a.Conforms line text) (hb : b.Conforms line text)
    (start : a.start = b.start) (framed : a.kind.frame? = some f)
    (framed' : b.kind.frame? = some f) :
    ∃ body rest body' rest', a.Holds f body rest ∧ b.Holds f body' rest' ∧
      body ++ rest = body' ++ rest' := by
  obtain ⟨before, body, rest, holds, cut⟩ := ha.exists_holds framed
  obtain ⟨before', body', rest', holds', cut'⟩ := hb.exists_holds framed'
  rw [start, cut', Option.some.injEq, Prod.mk.injEq] at cut
  exact ⟨body, rest, body', rest', holds, holds', (List.append_cancel_left cut.2).symm⟩

theorem Holds.literal_eq {body' rest' : Text} (ha : a.Holds f body rest)
    (hb : b.Holds f body' rest') (whole : body ++ rest = body' ++ rest') (same : body = body') :
    a.literal = b.literal := by
  rw [same] at whole
  rw [ha.literal, hb.literal, same, List.append_cancel_left whole]

/-- What a literal or comment holds is told from its free characters and its end. -/
theorem Grammar.begins (h : t.Grammar line text) (framed : t.kind.frame? = some f)
    (hollow : t.kind.isFilled = false) {c : Token} (member : c ∈ t.children) : f.Begins c := by
  obtain ⟨earlier, admits⟩ := h.own.form.admits.mem member
  have spelled := (h.child member).own.form.spelled
  have content : c.kind = .commentContent → c.literal ≠ [] := fun kind => by
    rw [kind] at spelled
    exact spelled rfl
  cases kind : t.kind with
  | line | brackets _ => simp [kind, Kind.isFilled] at hollow
  | quoted q =>
    rw [kind] at framed admits
    obtain rfl := Option.some.inj framed
    rw [show c.kind = .escape from admits] at spelled
    have mark : q.mark ≠ '\\' := by cases q <;> decide
    rcases spelled rfl with literal | ⟨d, literal⟩ <;>
      exact ⟨'\\', _, literal, fun plain => plain.1 rfl, by simpa using mark⟩
  | comment =>
    rw [kind] at framed admits
    obtain rfl := Option.some.inj framed
    obtain ⟨d, more, literal⟩ := List.exists_cons_of_ne_nil (content admits.2.1)
    exact ⟨d, more, literal, id, by simp⟩
  | docComment =>
    rw [kind] at framed admits
    obtain rfl := Option.some.inj framed
    obtain ⟨d, more, literal⟩ := List.exists_cons_of_ne_nil (content admits.2)
    exact ⟨d, more, literal, id, by simp⟩
  | _ =>
    rw [kind] at admits
    exact admits.elim

/-- An item of a line or group does not begin with the character that ends it. -/
theorem Grammar.foreign (h : t.Grammar line text) (framed : t.kind.frame? = some f)
    (filled : t.kind.isFilled) {c : Token} (member : c ∈ t.children) (item : c.kind.isItem) :
    ∀ d ∈ c.literal.head?, f.last? ≠ some d := by
  rintro d first complete
  obtain ⟨earlier, admits⟩ := h.own.form.admits.mem member
  rcases Kind.isFilled_iff.1 filled with kind | ⟨b, kind⟩
  · rw [kind] at framed
    obtain rfl := Option.some.inj framed
    cases complete
  · rw [kind] at framed admits
    obtain rfl := Option.some.inj framed
    obtain rfl := Option.some.inj complete
    obtain ⟨more, literal⟩ := List.head?_eq_some_iff.1 first
    obtain ⟨stray, closer⟩ := (h.child member).own.form.unresolved_of_closer item literal
    exact admits.2 stray closer

/-- All children of a literal or comment are of one kind. -/
theorem Grammar.inner_kind (ha : a.Grammar line text) (hollow : a.kind.isFilled = false)
    (hb : b.Grammar line text) (kind : a.kind = b.kind) {x y : Token} (member : x ∈ a.children)
    (member' : y ∈ b.children) : x.kind = y.kind := by
  obtain ⟨earlier, admits⟩ := ha.own.form.admits.mem member
  obtain ⟨earlier', admits'⟩ := hb.own.form.admits.mem member'
  rw [← kind] at admits'
  cases own : a.kind with
  | line | brackets _ => simp [own, Kind.isFilled] at hollow
  | quoted q =>
    rw [own] at admits admits'
    have escape : x.kind = .escape := admits
    exact escape.trans (Eq.symm admits')
  | comment =>
    rw [own] at admits admits'
    exact admits.2.1.trans admits'.2.1.symm
  | docComment =>
    rw [own] at admits admits'
    exact admits.2.trans admits'.2.symm
  | _ =>
    rw [own] at admits
    exact admits.elim

/-- The first child of a line or group has a kind of its own, the others are items in a row. -/
theorem Grammar.row (h : t.Grammar line text) (framed : t.kind.frame? = some f)
    (filled : t.kind.isFilled) (holds : t.Holds f body rest) :
    ∃ x items behind, t.children = x :: items ∧ body = x.literal ++ behind ∧
      x.start = t.start + Text.byteLength f.front ∧
      x.kind = (if t.kind = .line then .indent else .whitespace) ∧
      (∀ c ∈ items, c.kind.isItem) ∧ Row f x.stop x items behind rest := by
  obtain ⟨x, items, children⟩ := List.exists_cons_of_ne_nil (h.own.form.filled filled)
  obtain ⟨chain, settled⟩ := h.neighbourly t t.self_mem_listing filled
  have laid := holds.laid
  have first := h.own.form.admits [] x items children
  have others : ∀ c ∈ items, ∃ earlier, earlier ≠ [] ∧ t.kind.Admits earlier c := fun c member => by
    obtain ⟨earlier, later, same⟩ := List.append_of_mem member
    exact ⟨x :: earlier, by simp, h.own.form.admits _ c later (by rw [children, same]; rfl)⟩
  have unfree : ∀ c, ¬ f.free c := by
    rcases Kind.isFilled_iff.1 filled with kind | ⟨b, kind⟩ <;> rw [kind] at framed <;>
      obtain rfl := Option.some.inj framed <;> exact fun _ => id
  have kinds : x.kind = (if t.kind = .line then .indent else .whitespace) ∧
      ∀ c ∈ items, c.kind.isItem := by
    rcases Kind.isFilled_iff.1 filled with kind | ⟨b, kind⟩ <;> rw [kind] at first others ⊢
    · refine ⟨first, fun c member => ?_⟩
      obtain ⟨earlier, nonempty, admits⟩ := others c member
      simpa [Kind.Admits, nonempty] using admits
    · refine ⟨first.1, fun c member => ?_⟩
      obtain ⟨earlier, nonempty, admits⟩ := others c member
      simpa [nonempty] using admits.1
  rw [children] at chain settled laid
  rcases laid.cons_cases with ⟨d, behind, -, free, -⟩ | ⟨behind, same, start, laid⟩
  · exact (unfree d free).elim
  · exact ⟨x, items, behind, children, same, start, kinds.1, kinds.2,
      laid.mono fun c free => unfree c free, chain, settled, holds.stop,
      fun c member => h.foreign framed filled (by simp [children, member]) (kinds.2 c member)⟩

/-- Literals and comments at one place hold the same if their children are equal place by place. -/
theorem Grammar.same_hollow {body' rest' : Text} (ha : a.Grammar line text)
    (hb : b.Grammar line text) (start : a.start = b.start) (kind : a.kind = b.kind)
    (framed : a.kind.frame? = some f) (hollow : a.kind.isFilled = false)
    (holds : a.Holds f body rest) (holds' : b.Holds f body' rest')
    (whole : body ++ rest = body' ++ rest')
    (agree : ∀ x ∈ a.children, ∀ y ∈ b.children, x.start = y.start → x.kind = y.kind → x = y) :
    a.children = b.children ∧ body = body' := by
  have laid := holds.laid
  rw [start] at laid
  refine laid.unique holds'.laid whole holds.stop holds'.stop (fun _ => Kind.not_free_last framed)
    (fun _ => ha.begins framed hollow) (fun _ => hb.begins (kind ▸ framed) (kind ▸ hollow)) ?_
  intro x member y member' place
  exact agree x member y member' place (ha.inner_kind hollow hb kind member member')

/-- Lines and groups at one place hold the same if their children are equal place by place. -/
theorem Grammar.same_filled {body' rest' : Text} (ha : a.Grammar line text)
    (hb : b.Grammar line text) (start : a.start = b.start) (kind : a.kind = b.kind)
    (framed : a.kind.frame? = some f) (filled : a.kind.isFilled)
    (holds : a.Holds f body rest) (holds' : b.Holds f body' rest')
    (whole : body ++ rest = body' ++ rest')
    (agree : ∀ x ∈ a.children, ∀ y ∈ b.children, x.start = y.start → x.kind = y.kind → x = y) :
    a.children = b.children ∧ body = body' := by
  obtain ⟨x, items, behind, children, rfl, first, firstKind, isItem, row⟩ :=
    ha.row framed filled holds
  obtain ⟨y, items', behind', children', rfl, first', firstKind', isItem', row'⟩ :=
    hb.row (kind ▸ framed) (kind ▸ filled) holds'
  obtain rfl : x = y := agree x (by simp [children]) y (by simp [children'])
    (by rw [first, first', start]) (by rw [firstKind, firstKind', kind])
  rw [List.append_assoc, List.append_assoc] at whole
  have others : items = items' ∧ behind = behind' := by
    refine row.unique row' (List.append_cancel_left whole) ?_
    intro x member y member' place p follows follows'
    have left : x ∈ a.children := by simp [children, member]
    have right : y ∈ b.children := by simp [children', member']
    exact agree x left y right place (follows.kind_eq follows' (ha.child left) (hb.child right)
      (isItem x member) (isItem' y member') place)
  exact ⟨by rw [children, children', others.1], by rw [others.2]⟩

/-- Tokens of one kind at one place are equal if their children are, place by place. -/
theorem Grammar.same_inside (ha : a.Grammar line text) (hb : b.Grammar line text)
    (start : a.start = b.start) (kind : a.kind = b.kind)
    (agree : ∀ x ∈ a.children, ∀ y ∈ b.children, x.start = y.start → x.kind = y.kind → x = y) :
    a.children = b.children ∧ a.literal = b.literal := by
  cases framed : a.kind.frame? with
  | none =>
    have framed' : b.kind.frame? = none := kind ▸ framed
    obtain ⟨behind, after, whole, longest, longest'⟩ := ha.own.together hb.own start
    rw [← kind] at longest'
    have spelled' := hb.own.form.spelled framed'
    rw [← kind] at spelled'
    refine ⟨?_, longest.eq longest' (ha.own.form.spelled framed) spelled' whole⟩
    rw [ha.own.form.admits.eq_nil framed, hb.own.form.admits.eq_nil framed']
  | some f =>
    obtain ⟨body, rest, body', rest', holds, holds', whole⟩ :=
      ha.own.hold_together hb.own start framed (kind ▸ framed)
    have same : a.children = b.children ∧ body = body' := by
      cases filled : a.kind.isFilled with
      | false => exact ha.same_hollow hb start kind framed filled holds holds' whole agree
      | true => exact ha.same_filled hb start kind framed filled holds holds' whole agree
    exact ⟨same.1, holds.literal_eq holds' whole same.2⟩

/-- Tokens of one kind at one place are equal. -/
theorem Grammar.eq_of_kind (ha : a.Grammar line text) (hb : b.Grammar line text)
    (start : a.start = b.start) (kind : a.kind = b.kind) : a = b := by
  induction a using Token.induction generalizing b with
  | node number first literal k children value ih =>
    have inside := ha.same_inside hb start kind fun x member y member' start kind =>
      ih x member (ha.child member) (hb.child member') start kind
    have number_eq := ha.own.line_eq.trans hb.own.line_eq.symm
    have value_eq := ha.own.value_eq.trans hb.own.value_eq.symm
    obtain ⟨number', first', literal', k', children', value'⟩ := b
    simp_all

/-- Two grammatical trees of one text are equal. -/
theorem Grammatical.unique (ha : a.Grammatical line) (hb : b.Grammatical line)
    (same : a.literal = b.literal) : a = b := by
  have grammar := ha.grammar
  rw [same] at grammar
  exact grammar.eq_of_kind hb.grammar (ha.root.start_eq.trans hb.root.start_eq.symm)
    (ha.root.kind_eq.trans hb.root.kind_eq.symm)

end Token

namespace ScannedLine

/-- The tree of a scanned line is grammatical. -/
theorem grammatical (line : Nat) (text : Text) (report : Bool) :
    (ofText line text report).tree.Grammatical line := by
  have root := isRoot line text report
  refine ⟨root.literal_eq.symm ▸ root, ?_, fun u => neighbourly⟩
  rw [root.literal_eq]
  exact fun u => conforms

end ScannedLine

namespace Token

theorem grammar_ofLine (line : Nat) (text : Text) : (Token.ofLine line text).Grammar line text := by
  have grammar := (ScannedLine.grammatical line text true).grammar
  rwa [(ScannedLine.isRoot line text true).literal_eq] at grammar

/-- Scanning the text of a grammatical tree gives the tree back. -/
theorem Grammatical.ofLine_eq {t : Token} (h : t.Grammatical line) :
    Token.ofLine line t.literal = t :=
  (ScannedLine.grammatical line t.literal true).unique h
    (ScannedLine.isRoot line t.literal true).literal_eq

/-- The grammar is unambiguous, and the scan is complete for it: the grammatical trees are those that
scanning their own text gives back. -/
theorem grammatical_iff_ofLine (line : Nat) (t : Token) :
    t.Grammatical line ↔ Token.ofLine line t.literal = t := by
  constructor
  · exact Grammatical.ofLine_eq
  · intro same
    rw [← same]
    exact ScannedLine.grammatical line t.literal true

end Token
end LineTree
