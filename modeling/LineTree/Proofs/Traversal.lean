import Mathlib.Data.List.Nodup
import LineTree.Proofs.Findings
import LineTree.Token.Path

/-!
# Visiting the tokens of a tree

A traversal keeps the tokens that it has still to visit on a stack. What is left to visit is the
listing of the stack read from its top, so the visits come to an end and list the tree in pre-order.
A token may stand at several places of a tree; the paths to its places tell the visits apart. In
the tree of a line the order of the visits is that of the text. Main statements: `Token.visits_iff`,
`Token.descendants_at_paths`, `Token.descendants_in_order`.
-/
namespace LineTree.Token

variable {stack visited : List Token}

section Visits

/-- Visits the token on top of the stack, its last entry, and puts the children of that token on
the stack, the first one on top. -/
def visit? (stack : List Token) : Option (Token × List Token) :=
  stack.getLast?.map fun t => (t, stack.dropLast ++ t.children.reverse)

/-- The visits that begin with this stack come to an end, and `visited` lists them. -/
inductive Visits : List Token → List Token → Prop
  | done {stack : List Token} (empty : visit? stack = none) : Visits stack []
  | next {stack rest visited : List Token} {t : Token} (top : visit? stack = some (t, rest))
      (later : Visits rest visited) : Visits stack (t :: visited)

theorem visit?_concat (stack : List Token) (t : Token) :
    visit? (stack ++ [t]) = some (t, stack ++ t.children.reverse) := by
  simp [visit?]

/-- A stack settles what is visited. -/
theorem Visits.unique {others : List Token} (h : Visits stack visited) (h' : Visits stack others) :
    visited = others := by
  induction h generalizing others with
  | done empty =>
    cases h' with
    | done _ => rfl
    | next top _ => cases empty.symm.trans top
  | @next stack rest visited t top _ ih =>
    cases h' with
    | done empty => cases top.symm.trans empty
    | next top' later =>
      obtain ⟨rfl, rfl⟩ := Prod.mk.inj (Option.some.inj (top.symm.trans top'))
      rw [ih later]

theorem visits_descendantsFrom (pending : List Token) :
    Visits pending.reverse (descendantsFrom pending) := by
  fun_induction descendantsFrom pending with
  | case1 => exact .done rfl
  | case2 t rest ih =>
    rw [List.reverse_append] at ih
    rw [List.reverse_cons]
    exact .next (visit?_concat rest.reverse t) ih

/-- The visits that begin with a token come to an end with its descendants. -/
theorem visits_iff (t : Token) : Visits [t] visited ↔ visited = t.descendants := by
  have own : Visits [t] t.descendants := visits_descendantsFrom [t]
  constructor
  · intro h
    exact h.unique own
  · rintro rfl
    exact own

theorem descendants_eq (t : Token) : t.descendants = t :: t.children.flatMap descendants := by
  have inner : t.children.flatMap descendants = t.children.flatMap listing :=
    List.flatMap_congr fun c _ => descendants_eq_listing c
  rw [inner, descendants_eq_listing, listing_eq, listingAll_eq_flatMap]

end Visits

section Paths

mutual

/-- The paths to the tokens of the tree, in pre-order. -/
def paths : Token → List (List Nat)
  | ⟨_, _, _, _, children, _⟩ => [] :: pathsFrom 0 children

/-- The paths to the tokens of the children from the given index on. -/
def pathsFrom (index : Nat) : List Token → List (List Nat)
  | [] => []
  | t :: later => t.paths.map (index :: ·) ++ pathsFrom (index + 1) later

end

theorem paths_eq (t : Token) : t.paths = [] :: pathsFrom 0 t.children := by
  cases t
  rfl

theorem mem_pathsFrom_iff {index : Nat} {tokens : List Token} {path : List Nat} :
    path ∈ pathsFrom index tokens ↔
      ∃ i c inner, tokens[i]? = some c ∧ inner ∈ c.paths ∧ path = (index + i) :: inner := by
  induction tokens generalizing index with
  | nil => simp [pathsFrom]
  | cons t later ih =>
    rw [pathsFrom, List.mem_append, List.mem_map, ih]
    constructor
    · rintro (⟨inner, member, rfl⟩ | ⟨i, c, inner, child, member, rfl⟩)
      · exact ⟨0, t, inner, rfl, member, rfl⟩
      · exact ⟨i + 1, c, inner, child, member, by rw [Nat.add_right_comm, Nat.add_assoc]⟩
    · rintro ⟨_ | i, c, inner, child, member, rfl⟩
      · obtain rfl : t = c := Option.some.inj child
        exact Or.inl ⟨inner, member, rfl⟩
      · exact Or.inr ⟨i, c, inner, child, member, by rw [Nat.add_right_comm, Nat.add_assoc]⟩

/-- A path is listed exactly if it leads somewhere. -/
theorem mem_paths_iff {t : Token} {path : List Nat} : path ∈ t.paths ↔ (t.get? path).isSome := by
  induction path generalizing t with
  | nil => simp [paths_eq, get?]
  | cons i inner ih =>
    have here : i :: inner ∈ t.paths ↔ ∃ c, t.children[i]? = some c ∧ inner ∈ c.paths := by
      rw [paths_eq, List.mem_cons, mem_pathsFrom_iff]
      simp
    rw [here, get?]
    cases child : t.children[i]? with
    | none => simp
    | some c => simpa using ih

theorem nodup_pathsFrom {index : Nat} {tokens : List Token}
    (each : ∀ c ∈ tokens, c.paths.Nodup) : (pathsFrom index tokens).Nodup := by
  induction tokens generalizing index with
  | nil => exact .nil
  | cons t later ih =>
    rw [pathsFrom, List.nodup_append]
    refine ⟨(each t (by simp)).map List.cons_injective, ih fun c member => each c (by simp [member]),
      fun path first path' second same => ?_⟩
    -- The index tells a path through the first child from one through a later child.
    obtain ⟨inner, -, rfl⟩ := List.mem_map.1 first
    obtain ⟨i, c, inner', -, -, rfl⟩ := mem_pathsFrom_iff.1 second
    have index_eq := (List.cons.inj same).1
    omega

theorem nodup_paths (t : Token) : t.paths.Nodup := by
  induction t using Token.induction with
  | node line start literal kind children value ih =>
    rw [paths_eq, List.nodup_cons]
    refine ⟨fun member => ?_, nodup_pathsFrom ih⟩
    obtain ⟨i, c, inner, -, -, same⟩ := mem_pathsFrom_iff.1 member
    cases same

theorem map_get?_pathsFrom {t : Token} {earlier later : List Token}
    (split : t.children = earlier ++ later)
    (each : ∀ c ∈ later, c.paths.map c.get? = c.listing.map some) :
    (pathsFrom earlier.length later).map t.get? = (listingAll later).map some := by
  induction later generalizing earlier with
  | nil => rfl
  | cons c later ih =>
    have through : ∀ inner, t.get? (earlier.length :: inner) = c.get? inner := by
      intro inner
      simp [get?, split]
    have behind : t.children = (earlier ++ [c]) ++ later := by
      rw [split, List.append_assoc]
      rfl
    have rest := ih behind fun d member => each d (by simp [member])
    rw [List.length_append, List.length_singleton] at rest
    rw [pathsFrom, List.map_append, List.map_map, rest, listingAll_cons, List.map_append,
      ← each c (by simp)]
    simp only [Function.comp_def, through]

/-- The paths lead to the descendants, one after the other. -/
theorem descendants_at_paths (t : Token) : t.descendants.map some = t.paths.map t.get? := by
  rw [descendants_eq_listing]
  induction t using Token.induction with
  | node line start literal kind children value ih =>
    have whole : (⟨line, start, literal, kind, children, value⟩ : Token).children =
        [] ++ children := rfl
    have inner := map_get?_pathsFrom whole fun c member => (ih c member).symm
    rw [paths_eq, List.map_cons, listing_eq, List.map_cons]
    exact congrArg _ inner.symm

end Paths

section Lines

variable {line : Nat} {text : Text} {t : Token}

/-- In pre-order no token begins in front of an earlier one. -/
theorem Grammar.listing_sorted (h : t.Grammar line text) :
    t.listing.Pairwise fun a b => a.start ≤ b.start := by
  refine h.listing_apart.imp_of_mem fun {a b} left _ apart => ?_
  rcases apart with inside | behind
  · exact (h.inside left).start_le (mem_listing_iff.2 (Or.inr inside))
  · exact (Nat.le_add_right a.start _).trans behind

/-- The errors about unresolved tokens stand in the order of the text. -/
theorem Grammar.unrecognized_ordered (h : t.Grammar line text) :
    t.unrecognized.Pairwise fun a b => a.start < b.start := by
  have ordered := h.listing_ordered
  rw [← descendants_eq_listing] at ordered
  refine List.pairwise_map.2 ((ordered.filter _).imp_of_mem fun {a b} left _ before => ?_)
  have kind : a.kind = .unresolved := by simpa using (List.mem_filter.1 left).2
  exact before (by rw [kind]; rfl)

end Lines

/-- A traversal of any tree comes to an end. It visits the token itself, then the tokens of each
child from left to right, and every place of the tree once. In the tree of a line the tokens
come in the order in which they begin, and the errors about unresolved ones at increasing places. -/
theorem descendants_in_order :
    (∀ t : Token,
      (∀ visited, Visits [t] visited ↔ visited = t.descendants) ∧
      t.descendants = t :: t.children.flatMap descendants ∧
      t.descendants.map some = t.paths.map t.get? ∧
      t.paths.Nodup ∧ ∀ path, path ∈ t.paths ↔ (t.get? path).isSome) ∧
    ∀ (line : Nat) (text : Text),
      let t := ofLine line text
      (t.descendants.Pairwise fun a b => a.start ≤ b.start) ∧
      t.unrecognized.Pairwise fun a b => a.start < b.start := by
  constructor
  · intro t
    exact ⟨fun visited => visits_iff t, descendants_eq t, descendants_at_paths t, nodup_paths t,
      fun path => mem_paths_iff⟩
  · intro line text t
    have grammar : t.Grammar line text := grammar_ofLine line text
    refine ⟨?_, grammar.unrecognized_ordered⟩
    rw [descendants_eq_listing]
    exact grammar.listing_sorted

end LineTree.Token
