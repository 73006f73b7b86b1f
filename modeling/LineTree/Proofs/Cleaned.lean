import Mathlib.Data.List.Basic
import LineTree.Proofs.Shown
import LineTree.Token.Path

/-!
# Cleaned trees

Two passes clean a tree before it is written. One sets the values of the literals, the other drops
the whitespace tokens with all that is in them. A value depends on the kind and the literal of its
token alone, and whether a token stays depends on its kind alone, so neither pass sees what the other
one has done. A dropped token leaves a gap, which the literal around it fills with the same text.
Main statements: `Token.withValues_stripped`, `Token.get?_withValues`, `Token.descendants_stripped`,
`Token.WellFormed.stripped`, `Token.survivors_of_leaves`, `Token.stripped_and_withValues`.
-/
namespace LineTree.Token

variable {t u : Token}

section Values

theorem decoded?_stripped (t : Token) : t.stripped.decoded? = t.decoded? := by
  rw [stripped_eq]
  rfl

theorem decoded?_withValues (t : Token) : t.withValues.decoded? = t.decoded? := by
  rw [withValues_eq]
  rfl

theorem kind_stripped (t : Token) : t.stripped.kind = t.kind := by rw [stripped_eq]

theorem withValues_stripped (t : Token) : t.stripped.withValues = t.withValues.stripped := by
  induction t using Token.induction with
  | node line start literal kind children value ih =>
    have inner : (children.filter (·.kind ≠ .whitespace)).map (fun c => c.stripped.withValues) =
        (children.filter (·.kind ≠ .whitespace)).map fun c => c.withValues.stripped :=
      List.map_congr_left fun c member => ih c (List.mem_filter.1 member).1
    rw [withValues_eq, decoded?_stripped, stripped_eq, stripped_eq, withValues_eq]
    simp only [List.map_map, List.filter_map, Function.comp_def, kind_withValues, inner]

theorem stripped_stripped (t : Token) : t.stripped.stripped = t.stripped := by
  induction t using Token.induction with
  | node line start literal kind children value ih =>
    have inner : (children.filter (·.kind ≠ .whitespace)).map (fun c => c.stripped.stripped) =
        (children.filter (·.kind ≠ .whitespace)).map stripped :=
      List.map_congr_left fun c member => ih c (List.mem_filter.1 member).1
    rw [stripped_eq, stripped_eq]
    simp only [List.map_map, List.filter_map, Function.comp_def, kind_stripped, List.filter_filter,
      Bool.and_self, inner]

theorem withValues_withValues (t : Token) : t.withValues.withValues = t.withValues := by
  induction t using Token.induction with
  | node line start literal kind children value ih =>
    have inner : children.map (fun c => c.withValues.withValues) = children.map withValues :=
      List.map_congr_left ih
    rw [withValues_eq, decoded?_withValues, withValues_eq]
    simp only [List.map_map, Function.comp_def, inner]

/-- The token at each place gets its value, and keeps all else. -/
theorem get?_withValues (t : Token) (path : List Nat) :
    t.withValues.get? path = (t.get? path).map withValues := by
  induction path generalizing t with
  | nil => rfl
  | cons i path ih =>
    have children : t.withValues.children = t.children.map withValues := by rw [withValues_eq]
    rw [get?, get?, children, List.getElem?_map]
    cases t.children[i]? with
    | none => rfl
    | some c => exact ih c

end Values

mutual

/-- The tokens that stay without whitespace, in pre-order: the token itself, and those inside it that
are neither whitespace nor inside of whitespace. -/
def survivors : Token → List Token
  | ⟨line, start, literal, kind, children, value⟩ =>
    ⟨line, start, literal, kind, children, value⟩ :: survivorsAll children

def survivorsAll : List Token → List Token
  | [] => []
  | t :: rest => if t.kind = .whitespace then survivorsAll rest else t.survivors ++ survivorsAll rest

end

theorem survivorsAll_eq_flatMap (l : List Token) :
    survivorsAll l = (l.filter (·.kind ≠ .whitespace)).flatMap survivors := by
  induction l with
  | nil => rfl
  | cons t l ih => by_cases blank : t.kind = .whitespace <;> simp [survivorsAll, blank, ih]

theorem survivors_eq (t : Token) :
    t.survivors = t :: (t.children.filter (·.kind ≠ .whitespace)).flatMap survivors := by
  cases t
  rw [survivors, survivorsAll_eq_flatMap]

/-- The listing of a stripped tree is that of the tokens that stay, each of them stripped. -/
theorem descendants_stripped (t : Token) : t.stripped.descendants = t.survivors.map stripped := by
  rw [descendants_eq_listing]
  induction t using Token.induction with
  | node line start literal kind children value ih =>
    have inner : (children.filter (·.kind ≠ .whitespace)).flatMap (fun c => c.stripped.listing) =
        (children.filter (·.kind ≠ .whitespace)).flatMap fun c => c.survivors.map stripped :=
      List.flatMap_congr fun c member => ih c (List.mem_filter.1 member).1
    rw [listing_eq, listingAll_eq_flatMap, survivors_eq, List.map_cons, List.map_flatMap, ← inner,
      stripped_eq]
    simp only [List.flatMap_map]

theorem mem_listing_of_survives (survives : u ∈ t.survivors) : u ∈ t.listing := by
  induction t using Token.induction with
  | node line start literal kind children value ih =>
    rw [survivors_eq, List.mem_cons, List.mem_flatMap] at survives
    rcases survives with rfl | ⟨c, member, inside⟩
    · exact self_mem_listing _
    · have child := (List.mem_filter.1 member).1
      exact mem_listing_iff.2 (Or.inr ⟨c, child, ih c child inside⟩)

section Shape

theorem stop_stripped (t : Token) : t.stripped.stop = t.stop := by rw [stop, stop, stripped_eq]

/-- The children that stay are in order and inside the token, as all of them were. -/
theorem Nests.stripped (h : t.Nests) : t.stripped.Nests := by
  obtain ⟨ordered, inside⟩ := h
  have children : t.stripped.children =
      (t.children.filter (·.kind ≠ .whitespace)).map Token.stripped := by
    rw [stripped_eq]
  have start_eq (c : Token) : c.stripped.start = c.start := by rw [stripped_eq]
  refine ⟨?_, fun c member => ?_⟩
  · rw [children, List.pairwise_map]
    refine (ordered.filter _).imp fun before => ?_
    rwa [stop_stripped, start_eq]
  · rw [children, List.mem_map] at member
    obtain ⟨d, kept, rfl⟩ := member
    rw [start_eq, start_eq, stop_stripped, stop_stripped]
    exact inside d (List.mem_filter.1 kept).1

theorem WellFormed.survivor (h : t.WellFormed) (survives : u ∈ t.survivors) : u.WellFormed :=
  fun _ inside => h _ (mem_listing_trans inside (mem_listing_of_survives survives))

theorem WellFormed.stripped (h : t.WellFormed) : t.stripped.WellFormed := by
  intro u member
  rw [← descendants_eq_listing, descendants_stripped, List.mem_map] at member
  obtain ⟨v, survives, rfl⟩ := member
  obtain ⟨nests, slices⟩ := h v (mem_listing_of_survives survives)
  refine ⟨nests.stripped, fun c child => ?_⟩
  rw [stripped_eq] at child
  obtain ⟨d, kept, rfl⟩ := List.mem_map.1 child
  have slice := slices d (List.mem_filter.1 kept).1
  rw [stop_stripped, stripped_eq, stripped_eq]
  exact slice

/-- The literal of a token fills the gaps that whitespace has left in it. -/
theorem WellFormed.rebuild_stripped (h : t.WellFormed) : t.stripped.rebuild = t.rebuild := by
  rw [h.stripped.wellPlaced.rebuild_eq_literal, h.wellPlaced.rebuild_eq_literal, stripped_eq]

end Shape

/-- The token without those inside it. -/
def childless (t : Token) : Token := { t with children := [] }

theorem childless_stripped (t : Token) : t.stripped.childless = t.childless := by
  rw [childless, childless, stripped_eq]

/-- All whitespace in the tree is without children. -/
def BlankLeaves (t : Token) : Prop := ∀ u ∈ t.descendants, u.kind = .whitespace → u.children = []

instance (t : Token) : Decidable t.BlankLeaves :=
  inferInstanceAs (Decidable (∀ u ∈ t.descendants, _ → _))

theorem BlankLeaves.child {c : Token} (h : t.BlankLeaves) (child : c ∈ t.children) :
    c.BlankLeaves := fun u member =>
  h u (mem_descendants_iff.2 (mem_listing_iff.2 (Or.inr ⟨c, child, mem_descendants_iff.1 member⟩)))

theorem survivorsAll_of_leaves {l : List Token}
    (blank : ∀ c ∈ l, c.kind = .whitespace → c.children = [])
    (solid : ∀ c ∈ l, c.kind ≠ .whitespace →
      c.survivors = c :: (listingAll c.children).filter (·.kind ≠ .whitespace)) :
    survivorsAll l = (listingAll l).filter (·.kind ≠ .whitespace) := by
  induction l with
  | nil => rfl
  | cons c later ih =>
    have rest := ih (fun d member => blank d (by simp [member]))
      fun d member => solid d (by simp [member])
    rw [survivorsAll, listingAll_cons, List.filter_append, listing_eq]
    split
    · next kind =>
      have leaf := blank c (by simp) kind
      simp [rest, leaf, kind, listingAll]
    · next kind => simp [rest, solid c (by simp) kind, kind]

/-- Where whitespace holds no other tokens, all but whitespace stays. -/
theorem survivors_of_leaves (h : t.BlankLeaves) :
    t.survivors = t :: t.descendants.tail.filter (·.kind ≠ .whitespace) := by
  rw [descendants_eq_listing, listing_eq, List.tail_cons]
  induction t using Token.induction with
  | node line start literal kind children value ih =>
    have blank : ∀ c ∈ children, c.kind = .whitespace → c.children = [] := fun c member =>
      h c (mem_descendants_iff.2 (mem_listing_of_child member))
    rw [survivors, survivorsAll_of_leaves blank fun c member _ => ih c member (h.child member)]

theorem ofLine_blankLeaves (line : Nat) (text : Text) : (ofLine line text).BlankLeaves := by
  intro u member kind
  have form := (ScannedLine.conforms (mem_descendants_iff.1 member)).form
  exact form.admits.eq_nil (by rw [kind]; rfl)

/-- The two passes can be run in either order and any number of times. One changes nothing but the
values. The other leaves a well-formed tree well formed, in which every token that stays covers the
text that it covered before. If whitespace holds no other tokens, as in every line, the tokens that
stay are the root and all that are not whitespace, in their order and with all they had. -/
theorem stripped_and_withValues :
    (∀ t : Token, t.stripped.withValues = t.withValues.stripped ∧
      t.stripped.stripped = t.stripped ∧ t.withValues.withValues = t.withValues ∧
      ∀ path, t.withValues.get? path = (t.get? path).map fun u =>
        { u with children := u.children.map withValues, value := u.decoded? }) ∧
    (∀ t : Token, t.WellFormed → t.stripped.WellFormed ∧ t.stripped.rebuild = t.rebuild ∧
      t.stripped.descendants = t.survivors.map stripped ∧
      ∀ u ∈ t.survivors, u.stripped.rebuild = u.rebuild) ∧
    (∀ t : Token, t.BlankLeaves → t.stripped.descendants.map childless =
      (t :: t.descendants.tail.filter (·.kind ≠ .whitespace)).map childless) ∧
    ∀ line text, (ofLine line text).BlankLeaves := by
  refine ⟨fun t => ?_, fun t wellFormed => ?_, fun t leaves => ?_, ofLine_blankLeaves⟩
  · refine ⟨t.withValues_stripped, t.stripped_stripped, t.withValues_withValues, fun path => ?_⟩
    rw [get?_withValues]
    congr 1
    funext u
    exact u.withValues_eq
  · exact ⟨wellFormed.stripped, wellFormed.rebuild_stripped, t.descendants_stripped,
      fun u survives => (wellFormed.survivor survives).rebuild_stripped⟩
  · rw [descendants_stripped, survivors_of_leaves leaves, List.map_map]
    congr 1
    funext u
    exact u.childless_stripped

/-- In `f( é )` two whitespace tokens go, and the group still covers its text. -/
theorem stripped_and_withValues_group :
    let name : Token := ⟨0, 0, ['f'], .identifier, [], none⟩
    let blank (start : Nat) : Token := ⟨0, start, [' '], .whitespace, [], none⟩
    let other : Token := ⟨0, 3, ['é'], .unresolved, [], none⟩
    let group : Token := ⟨0, 1, "( é )".toList, .brackets .round, [blank 2, other, blank 5], none⟩
    let t : Token := ⟨0, 0, "f( é )".toList, .line, [name, group], none⟩
    t.WellFormed ∧ t.BlankLeaves ∧ t.stripped.rebuild = t.literal ∧
      t.stripped.descendants.map childless = [t.childless, name, group.childless, other] := by
  intro name blank other group t
  have wellFormed : t.WellFormed := by decide +kernel
  have leaves : t.BlankLeaves := by decide +kernel
  have rebuilt := (stripped_and_withValues.2.1 t wellFormed).2.1
  have listed := stripped_and_withValues.2.2.1 t leaves
  exact ⟨wellFormed, leaves, rebuilt.trans (by decide +kernel), listed.trans (by decide +kernel)⟩

end LineTree.Token
