import LineTree.Token.Covered
import LineTree.Token.Listing

/-!
# Tokens placed in a text

`Laid` says that tokens stand in a text in order and without overlap, and which characters stand
between them. A tree is well placed if the children of every token are laid in its literal; offsets
and literals that agree with one another make it so. Main statements: `Laid.ordered`, `Laid.tiled`,
`Token.WellPlaced.rebuild_eq_literal`, `Token.WellFormed.wellPlaced`.
-/
namespace LineTree

namespace Text

theorem byteLength_reverse (t : Text) : byteLength t.reverse = byteLength t := by
  induction t with
  | nil => rfl
  | cons c t ih =>
    rw [List.reverse_cons, byteLength_append, ih, byteLength_cons, byteLength_cons,
      byteLength_nil]
    omega

/-- Of two cuts of a text the later one leaves a gap behind the earlier one. -/
theorem exists_gap {before text after more : Text} (same : before ++ text = after ++ more)
    (behind : byteLength before ≤ byteLength after) :
    ∃ gap, after = before ++ gap ∧ text = gap ++ more := by
  rcases List.append_eq_append_iff.1 same with ⟨gap, rfl, rest⟩ | ⟨gap, rfl, rest⟩
  · exact ⟨gap, rfl, rest⟩
  · have empty : gap = [] := (byteLength_eq_zero_iff gap).1 (by
      rw [byteLength_append] at behind
      omega)
    subst empty
    exact ⟨[], by simp, by simpa using rest.symm⟩

end Text

/-- The tokens stand in the text, which begins at byte `offset` of its line, in order and without
overlap. The characters that belong to none of them satisfy `outside`. -/
inductive Laid (outside : Char → Prop) : Nat → Text → List Token → Prop
  | nil (offset : Nat) : Laid outside offset [] []
  | char {offset : Nat} {c : Char} {text : Text} {tokens : List Token} (free : outside c)
      (rest : Laid outside (offset + c.utf8Size) text tokens) :
      Laid outside offset (c :: text) tokens
  | token {offset : Nat} {t : Token} {text : Text} {tokens : List Token} (placed : t.start = offset)
      (rest : Laid outside t.stop text tokens) :
      Laid outside offset (t.literal ++ text) (t :: tokens)

/-- The tokens follow one another without a gap, from the first offset up to the last one. -/
def Tiled : Nat → List Token → Nat → Prop
  | first, [], last => first = last
  | first, t :: rest, last => t.start = first ∧ Tiled t.stop rest last

namespace Laid

variable {outside : Char → Prop} {offset : Nat} {text : Text} {tokens : List Token}

theorem mono {weaker : Char → Prop} (h : Laid outside offset text tokens)
    (implied : ∀ c, outside c → weaker c) : Laid weaker offset text tokens := by
  induction h with
  | nil offset => exact .nil offset
  | char free _ ih => exact .char (implied _ free) ih
  | token placed _ ih => exact .token placed ih

theorem of_forall (free : ∀ c ∈ text, outside c) : Laid outside offset text [] := by
  induction text generalizing offset with
  | nil => exact .nil offset
  | cons c text ih =>
    exact .char (free c (by simp)) (ih fun x member => free x (by simp [member]))

theorem append {more : Text} {others : List Token} (h : Laid outside offset text tokens)
    (next : Laid outside (offset + Text.byteLength text) more others) :
    Laid outside offset (text ++ more) (tokens ++ others) := by
  induction h with
  | nil offset => simpa using next
  | char free _ ih =>
    refine .char free (ih ?_)
    simpa only [Text.byteLength_cons, Nat.add_assoc] using next
  | token placed _ ih =>
    rw [List.append_assoc, List.cons_append]
    refine .token placed (ih ?_)
    rw [Token.stop, placed, Nat.add_assoc, ← Text.byteLength_append]
    exact next

theorem append_char {c : Char} (h : Laid outside offset text tokens) (free : outside c) :
    Laid outside offset (text ++ [c]) tokens := by
  simpa using h.append (.char free (.nil _))

theorem append_token {t : Token} (h : Laid outside offset text tokens)
    (placed : t.start = offset + Text.byteLength text) :
    Laid outside offset (text ++ t.literal) (tokens ++ [t]) := by
  simpa using h.append (.token placed (.nil _))

/-- Each token covers its own part of the text. -/
theorem mem_place (h : Laid outside offset text tokens) {t : Token} (member : t ∈ tokens) :
    ∃ before after, text = before ++ t.literal ++ after ∧
      t.start = offset + Text.byteLength before := by
  induction h with
  | nil => cases member
  | @char offset c text tokens free _ ih =>
    obtain ⟨before, after, rfl, start⟩ := ih member
    exact ⟨c :: before, after, by simp, by simp only [start, Text.byteLength_cons]; omega⟩
  | @token offset u text tokens placed _ ih =>
    rcases List.mem_cons.1 member with rfl | later
    · exact ⟨[], text, by simp, by simpa using placed⟩
    · obtain ⟨before, after, rfl, start⟩ := ih later
      refine ⟨u.literal ++ before, after, by simp, ?_⟩
      rw [start, Token.stop, placed, Text.byteLength_append]
      omega

theorem bounds (h : Laid outside offset text tokens) {t : Token} (member : t ∈ tokens) :
    offset ≤ t.start ∧ t.stop ≤ offset + Text.byteLength text := by
  obtain ⟨before, after, rfl, start⟩ := h.mem_place member
  simp only [Token.stop, start, Text.byteLength_append]
  omega

theorem ordered (h : Laid outside offset text tokens) :
    tokens.Pairwise fun a b => a.stop ≤ b.start := by
  induction h with
  | nil => exact .nil
  | char _ _ ih => exact ih
  | token _ rest ih => exact .cons (fun u member => (rest.bounds member).1) ih

/-- Tokens in order, each of which is the part of the literal between its offsets, are laid in what
is left of the literal behind `before`. -/
theorem of_slices {origin : Nat} {literal before text : Text} {tokens : List Token}
    (ordered : tokens.Pairwise fun a b => a.stop ≤ b.start)
    (slices : ∀ t ∈ tokens,
      Text.slice? literal (t.start - origin) (t.stop - origin) = some t.literal)
    (whole : literal = before ++ text)
    (behind : ∀ t ∈ tokens, origin + Text.byteLength before ≤ t.start) :
    Laid (fun _ => True) (origin + Text.byteLength before) text tokens := by
  induction tokens generalizing before text with
  | nil => exact .of_forall fun _ _ => trivial
  | cons t rest ih =>
    obtain ⟨later, ordered⟩ := List.pairwise_cons.1 ordered
    have here := behind t (by simp)
    obtain ⟨front, more, same, start, -⟩ := Text.slice?_eq_some_iff.1 (slices t (by simp))
    have cut : before ++ text = front ++ (t.literal ++ more) := by
      rw [← whole, same, List.append_assoc]
    obtain ⟨gap, rfl, rfl⟩ := Text.exists_gap cut (by omega)
    have placed : t.start = origin + Text.byteLength (before ++ gap) := by omega
    have stop : t.stop = origin + Text.byteLength (before ++ gap ++ t.literal) := by
      rw [Token.stop, placed, Text.byteLength_append _ t.literal, Nat.add_assoc]
    have inner := ih ordered (fun u member => slices u (by simp [member])) same
      fun u member => stop ▸ later u member
    rw [← stop] at inner
    have opened : Laid (fun _ => True) (origin + Text.byteLength before) gap [] :=
      .of_forall fun _ _ => trivial
    refine opened.append (.token ?_ inner)
    rw [placed, Text.byteLength_append, Nat.add_assoc]

/-- Without characters outside of them the tokens tile the text. -/
theorem tiled (h : Laid (fun _ => False) offset text tokens) :
    Tiled offset tokens (offset + Text.byteLength text) := by
  induction h with
  | nil => rfl
  | char free _ _ => exact free.elim
  | @token offset t text tokens placed _ ih =>
    refine ⟨placed, ?_⟩
    have stop_eq : t.stop + Text.byteLength text = offset + Text.byteLength (t.literal ++ text) := by
      simp only [Token.stop, placed, Text.byteLength_append]
      omega
    rwa [stop_eq] at ih

end Laid

theorem Tiled.stop_getLast {first last : Nat} {tokens : List Token} (h : Tiled first tokens last)
    {t : Token} (final : tokens.getLast? = some t) : t.stop = last := by
  induction tokens generalizing first with
  | nil => cases final
  | cons u rest ih =>
    cases rest with
    | nil =>
      cases final
      exact h.2
    | cons v rest =>
      rw [List.getLast?_cons_cons] at final
      exact ih h.2 final

theorem Tiled.adjacent {first last : Nat} {earlier later : List Token} {a b : Token}
    (h : Tiled first (earlier ++ a :: b :: later) last) : b.start = a.stop := by
  induction earlier generalizing first with
  | nil => exact h.2.1
  | cons t earlier ih => exact ih h.2

namespace Token

/-- The children of the token stand inside it, in order and without overlap. -/
def Nests (t : Token) : Prop :=
  (t.children.Pairwise fun a b => a.stop ≤ b.start) ∧
    ∀ c ∈ t.children, t.start ≤ c.start ∧ c.stop ≤ t.stop

/-- The children of the token, and of every token inside it, are laid in its literal. -/
def WellPlaced (t : Token) : Prop :=
  ∀ u ∈ t.listing, Laid (fun _ => True) u.start u.literal u.children

/-- The children of the token, and of every token inside it, stand inside the token around them, in
order and without overlap, and each is the part of that token's literal between its offsets. -/
def WellFormed (t : Token) : Prop :=
  ∀ u ∈ t.listing, u.Nests ∧
    ∀ c ∈ u.children, Text.slice? u.literal (c.start - u.start) (c.stop - u.start) = some c.literal

instance (t : Token) : Decidable t.Nests := inferInstanceAs (Decidable (_ ∧ _))

instance (t : Token) : Decidable t.WellFormed :=
  inferInstanceAs (Decidable (∀ u ∈ t.listing, _ ∧ _))

theorem WellFormed.wellPlaced {t : Token} (h : t.WellFormed) : t.WellPlaced := by
  intro u member
  obtain ⟨⟨ordered, inside⟩, slices⟩ := h u member
  have whole : u.literal = [] ++ u.literal := rfl
  exact Laid.of_slices ordered slices whole fun c child => (inside c child).1

theorem self_mem_listing (t : Token) : t ∈ t.listing := by
  simp [listing_eq]

theorem mem_listing_iff {t u : Token} :
    u ∈ t.listing ↔ u = t ∨ ∃ c ∈ t.children, u ∈ c.listing := by
  rw [listing_eq, listingAll_eq_flatMap, List.mem_cons, List.mem_flatMap]

theorem mem_listing_of_child {t c : Token} (child : c ∈ t.children) : c ∈ t.listing :=
  mem_listing_iff.2 (Or.inr ⟨c, child, c.self_mem_listing⟩)

theorem mem_descendants_iff {t u : Token} : u ∈ t.descendants ↔ u ∈ t.listing := by
  rw [descendants_eq_listing]

theorem mem_listing_trans {t u v : Token} (inner : v ∈ u.listing) (outer : u ∈ t.listing) :
    v ∈ t.listing := by
  induction t using Token.induction with
  | node line start literal kind children value ih =>
    rcases mem_listing_iff.1 outer with rfl | ⟨c, member, inside⟩
    · exact inner
    · exact mem_listing_iff.2 (Or.inr ⟨c, member, ih c member inside⟩)

/-- Every token inside another one is a child of some token there. -/
theorem exists_parent {t c d : Token} (child : c ∈ t.children) (member : d ∈ c.listing) :
    ∃ p ∈ t.listing, d ∈ p.children := by
  induction c using Token.induction generalizing t with
  | node line start literal kind children value ih =>
    rcases mem_listing_iff.1 member with rfl | ⟨e, inner, listed⟩
    · exact ⟨t, t.self_mem_listing, child⟩
    · obtain ⟨p, inside, parent⟩ := ih e inner inner listed
      exact ⟨p, mem_listing_iff.2 (Or.inr ⟨_, child, inside⟩), parent⟩

theorem WellPlaced.nests {t : Token} (h : WellPlaced t) : t.Nests := by
  have laid := h t t.self_mem_listing
  exact ⟨laid.ordered, fun c member => laid.bounds member⟩

theorem WellPlaced.child {t c : Token} (h : WellPlaced t) (member : c ∈ t.children) :
    WellPlaced c := fun u inside =>
  h u (mem_listing_iff.2 (Or.inr ⟨c, member, inside⟩))

theorem WellPlaced.descendant {t u : Token} (h : WellPlaced t) (member : u ∈ t.listing) :
    WellPlaced u := fun _ inside => h _ (mem_listing_trans inside member)

end Token

theorem Text.gap_append {origin : Nat} (before gap after : Text) :
    Text.gap (before ++ gap ++ after) origin (origin + byteLength before)
      (origin + byteLength before + byteLength gap) = gap := by
  unfold Text.gap
  split
  · next inside =>
    have slice : Text.slice? (before ++ gap ++ after) (origin + byteLength before - origin)
        (origin + byteLength before + byteLength gap - origin) = some gap :=
      slice?_eq_some_iff.2 ⟨before, after, rfl, by omega, by omega⟩
    rw [slice, Option.getD_some]
  · next outside =>
    have empty : byteLength gap = 0 := by omega
    exact ((byteLength_eq_zero_iff gap).1 empty).symm

/-- A literal is read one token after the other. Behind the text read so far stands the last gap, or a
gap and the next token, behind which it goes on. -/
theorem Laid.literal_induction {outside : Char → Prop} {origin : Nat} {literal : Text}
    {motive : Text → List Token → Prop}
    (last : ∀ before gap, literal = before ++ gap →
      literal.gap origin (origin + Text.byteLength before) (origin + Text.byteLength literal) = gap →
      motive before [])
    (next : ∀ before gap t text later, literal = before ++ gap ++ t.literal ++ text →
      literal.gap origin (origin + Text.byteLength before) t.start = gap →
      t.start = origin + Text.byteLength (before ++ gap) →
      t.stop = origin + Text.byteLength (before ++ gap ++ t.literal) →
      Laid outside t.stop text later → motive (before ++ gap ++ t.literal) later →
      motive before (t :: later))
    {tokens : List Token} (h : Laid outside origin literal tokens) : motive [] tokens := by
  -- Characters outside of the tokens are read into the gap.
  suffices reading : ∀ {place text tokens}, Laid outside place text tokens → ∀ before gap,
      place = origin + Text.byteLength (before ++ gap) → literal = before ++ gap ++ text →
      motive before tokens from reading h [] [] rfl rfl
  intro place text tokens laid
  induction laid with
  | nil place =>
    intro before gap here whole
    rw [List.append_nil] at whole
    refine last before gap whole ?_
    have cut := @Text.gap_append origin before gap []
    rwa [List.append_nil, Nat.add_assoc, ← Text.byteLength_append, ← whole] at cut
  | @char place c text tokens _ _ ih =>
    intro before gap here whole
    refine ih before (gap ++ [c]) ?_ (by simpa using whole)
    simp only [here, Text.byteLength_append, Text.byteLength_cons, Text.byteLength_nil]
    omega
  | @token place t text tokens placed rest ih =>
    intro before gap here whole
    have start_eq : t.start = origin + Text.byteLength (before ++ gap) := placed.trans here
    have stop_eq : t.stop = origin + Text.byteLength (before ++ gap ++ t.literal) := by
      rw [Token.stop, start_eq, Text.byteLength_append _ t.literal, Nat.add_assoc]
    have cut := @Text.gap_append origin before gap (t.literal ++ text)
    rw [Nat.add_assoc, ← Text.byteLength_append, ← start_eq, ← whole] at cut
    rw [← List.append_assoc] at whole
    exact next before gap t text tokens whole cut start_eq stop_eq rest
      (ih (before ++ gap ++ t.literal) [] (by rw [List.append_nil, stop_eq])
        (by rw [List.append_nil, whole]))

namespace Token

/-- Rebuilding puts the tokens back between the gaps. -/
theorem rebuildFrom_laid {outside : Char → Prop} {origin : Nat} {literal : Text}
    {tokens : List Token} (h : Laid outside origin literal tokens)
    (same : ∀ t ∈ tokens, t.rebuild = t.literal) :
    rebuildFrom origin literal origin tokens = literal := by
  refine h.literal_induction (motive := fun before tokens => (∀ t ∈ tokens, t.rebuild = t.literal) →
    literal = before ++ rebuildFrom origin literal (origin + Text.byteLength before) tokens)
    ?last ?next same |>.symm
  case last =>
    intro before gap whole cut _
    rw [rebuildFrom, cut, ← whole]
  case next =>
    intro before gap t text later _ cut _ stop_eq _ ih same
    have own : t.rebuild = t.literal := same t (by simp)
    have rest := ih fun u member => same u (by simp [member])
    rw [rebuildFrom, cut, own, stop_eq]
    simpa using rest

/-- A well placed tree rebuilds the literal of its root. -/
theorem WellPlaced.rebuild_eq_literal {t : Token} (h : WellPlaced t) : t.rebuild = t.literal := by
  induction t using Token.induction with
  | node line start literal kind children value ih =>
    have laid : Laid (fun _ => True) start literal children := h _ (self_mem_listing _)
    have same : ∀ c ∈ children, c.rebuild = c.literal :=
      fun c member => ih c member (h.child member)
    rw [Token.rebuild_eq]
    exact rebuildFrom_laid laid same

end Token
end LineTree
