import LineTree.Proofs.Placement
import LineTree.Proofs.Reports

/-!
# Brackets in a tree

The edges of a tree lead from a token to the tokens in it. On them one can see which closing
brackets close nothing, and which groups were never closed, without any scan. Main statements:
`Token.descendants_eq_edges`, `Token.mem_edges_iff`, `Token.mismatches_congr`.
-/
namespace LineTree.Token

mutual

/-- The tokens inside the token in pre-order, each behind the token around it. -/
def edges : Token → List (Token × Token)
  | ⟨line, start, literal, kind, children, value⟩ =>
    edgesAll ⟨line, start, literal, kind, children, value⟩ children

/-- The same for tokens in a row that stand in `parent`. -/
def edgesAll (parent : Token) : List Token → List (Token × Token)
  | [] => []
  | t :: later => (parent, t) :: (t.edges ++ edgesAll parent later)

end

theorem edges_eq (t : Token) : t.edges = edgesAll t t.children := by
  cases t
  rfl

theorem edgesAll_cons (parent t : Token) (later : List Token) :
    edgesAll parent (t :: later) = (parent, t) :: (t.edges ++ edgesAll parent later) := rfl

theorem edgesAll_append (parent : Token) (a b : List Token) :
    edgesAll parent (a ++ b) = edgesAll parent a ++ edgesAll parent b := by
  induction a with
  | nil => rfl
  | cons t a ih => simp [edgesAll_cons, ih]

theorem edgesAll_snd (parent : Token) (tokens : List Token)
    (same : ∀ t ∈ tokens, t.edges.map Prod.snd = listingAll t.children) :
    (edgesAll parent tokens).map Prod.snd = listingAll tokens := by
  induction tokens with
  | nil => rfl
  | cons t later ih =>
    rw [edgesAll_cons, listingAll_cons, listing_eq, List.map_cons, List.map_append,
      same t (by simp), ih fun u member => same u (by simp [member])]
    rfl

/-- The edges list all tokens of the tree but the root. -/
theorem edges_snd (t : Token) : t.edges.map Prod.snd = listingAll t.children := by
  induction t using Token.induction with
  | node line start literal kind children value ih => exact edgesAll_snd _ children ih

theorem descendants_eq_edges (t : Token) : t.descendants = t :: t.edges.map Prod.snd := by
  rw [descendants_eq_listing, listing_eq, edges_snd]

theorem mem_edgesAll_iff {parent p u : Token} {tokens : List Token} :
    (p, u) ∈ edgesAll parent tokens ↔
      (p = parent ∧ u ∈ tokens) ∨ ∃ t ∈ tokens, (p, u) ∈ t.edges := by
  induction tokens with
  | nil => simp [edgesAll]
  | cons t later ih =>
    simp only [edgesAll_cons, List.mem_cons, List.mem_append, ih, Prod.mk.injEq]
    grind

/-- An edge leads from any token of the tree to one of its children. -/
theorem mem_edges_iff {t p u : Token} : (p, u) ∈ t.edges ↔ p ∈ t.listing ∧ u ∈ p.children := by
  induction t using Token.induction with
  | node line start literal kind children value ih =>
    rw [edges_eq, mem_edgesAll_iff, mem_listing_iff]
    constructor
    · rintro (⟨rfl, member⟩ | ⟨t, child, inside⟩)
      · exact ⟨Or.inl rfl, member⟩
      · obtain ⟨listed, member⟩ := (ih t child).1 inside
        exact ⟨Or.inr ⟨t, child, listed⟩, member⟩
    · rintro ⟨rfl | ⟨t, child, listed⟩, member⟩
      · exact Or.inl ⟨rfl, member⟩
      · exact Or.inr ⟨t, child, (ih t child).2 ⟨listed, member⟩⟩

theorem mem_listing_of_edge {t p u : Token} (h : (p, u) ∈ t.edges) : u ∈ t.listing := by
  apply mem_descendants_iff.1
  rw [descendants_eq_edges]
  exact List.mem_cons_of_mem t (List.mem_map_of_mem h)

/-- The bracket that the token would close, if it is an unresolved closing bracket. -/
def stray? (t : Token) : Option Bracket :=
  match t.kind, t.literal with
  | .unresolved, [c] => Bracket.ofCloser? c
  | _, _ => none

/-- The report about the inner token of an edge, if that is an unresolved closing bracket. -/
def mismatch? (e : Token × Token) : Option Diagnostic :=
  e.2.stray?.map fun b => .mismatched e.2.line e.2.start b e.1.kind.bracket?

/-- The reports about unresolved closing brackets, in pre-order. -/
def mismatches (t : Token) : List Diagnostic := t.edges.filterMap mismatch?

/-- The bracket of a group that ends where the last token inside it does. -/
def unclosed? (t : Token) : Option Bracket :=
  if t.children.getLast?.map stop = some t.stop then t.kind.bracket? else none

/-- The report about the token, if it is a group that ends where the last token inside it does. -/
def unclosedGroup? (t : Token) : Option Diagnostic := t.unclosed?.map (.unclosed t.line t.start)

/-- The reports about groups that end where the last token inside them does, in pre-order. -/
def unclosedGroups (t : Token) : List Diagnostic := t.descendants.filterMap unclosedGroup?

theorem stray?_eq_none {t : Token} (resolved : t.kind ≠ .unresolved) : t.stray? = none := by
  unfold stray?
  split
  · next kind _ => exact (resolved kind).elim
  · rfl

theorem stray?_eq_some_iff {t : Token} {b : Bracket} :
    t.stray? = some b ↔ t.kind = .unresolved ∧ t.literal = [b.closer] := by
  unfold stray?
  split
  · next c kind literal => simp [kind, literal, Bracket.ofCloser?_eq_some_iff]
  · next other =>
    constructor
    · intro found
      cases found
    · rintro ⟨kind, literal⟩
      exact (other b.closer kind literal).elim

theorem unclosed?_eq_none {t : Token} (single : t.kind.bracket? = none) :
    t.unclosed? = none := by
  unfold unclosed?
  rw [single, ite_self]

theorem unclosedGroup?_eq_none {t : Token} (single : t.kind.bracket? = none) :
    t.unclosedGroup? = none := by
  rw [unclosedGroup?, unclosed?_eq_none single]
  rfl

theorem unclosed?_eq_some_iff {t : Token} {b : Bracket} : t.unclosed? = some b ↔
    t.kind = .brackets b ∧ ∃ last, t.children.getLast? = some last ∧ last.stop = t.stop := by
  unfold unclosed?
  split
  · next reach => simpa [Kind.bracket?_eq_some_iff] using fun _ => reach
  · next short => simpa using fun _ last final reach => short (by simp [final, reach])

/-- Only the kind of a token matters for the reports about its children. -/
theorem filterMap_edgesAll {p q : Token} (same : p.kind = q.kind) (tokens : List Token) :
    (edgesAll p tokens).filterMap mismatch? = (edgesAll q tokens).filterMap mismatch? := by
  induction tokens with
  | nil => rfl
  | cons t later ih =>
    have first : mismatch? (p, t) = mismatch? (q, t) := by simp [mismatch?, same]
    simp only [edgesAll_cons, List.filterMap_cons, List.filterMap_append, first, ih]

theorem mismatches_congr {t u : Token} (kind : t.kind = u.kind) (children : t.children = u.children) :
    t.mismatches = u.mismatches := by
  unfold mismatches
  rw [edges_eq, edges_eq, children]
  exact filterMap_edgesAll kind _

theorem mismatches_eq_nil {t : Token} (childless : t.children = []) : t.mismatches = [] := by
  unfold mismatches
  rw [edges_eq, childless]
  rfl

end LineTree.Token
