import LineTree.Token.Basic

/-!
# Listing the tokens of a tree

The tokens of a tree in pre-order: every token in front of the tokens inside it, and those from
left to right. `Token.listing` follows the tree; `Token.descendants` keeps the tokens
still to be visited in one list. Main statement: `Token.descendants_eq_listing`.
-/
namespace LineTree.Token

mutual

/-- The token and all tokens inside it, in pre-order. -/
def listing : Token → List Token
  | ⟨line, start, literal, kind, children, value⟩ =>
    ⟨line, start, literal, kind, children, value⟩ :: listingAll children

/-- The listings of the tokens, one after the other. -/
def listingAll : List Token → List Token
  | [] => []
  | t :: rest => t.listing ++ listingAll rest

end

theorem listing_eq (t : Token) : t.listing = t :: listingAll t.children := by
  cases t
  rfl

theorem listingAll_cons (t : Token) (rest : List Token) :
    listingAll (t :: rest) = t.listing ++ listingAll rest := rfl

theorem listingAll_append (a b : List Token) :
    listingAll (a ++ b) = listingAll a ++ listingAll b := by
  induction a with
  | nil => rfl
  | cons t a ih => simp [listingAll_cons, ih]

theorem listingAll_eq_flatMap (l : List Token) : listingAll l = l.flatMap listing := by
  induction l with
  | nil => rfl
  | cons t l ih => simp [listingAll_cons, ih]

/-- Number of tokens that a traversal of the pending ones visits. -/
def pendingSize (pending : List Token) : Nat := (listingAll pending).length

/-- Visits the first pending token and puts its children in front of the other ones. -/
def descendantsFrom : List Token → List Token
  | [] => []
  | t :: rest => t :: descendantsFrom (t.children ++ rest)
termination_by pending => pendingSize pending
decreasing_by
  simp only [pendingSize, listingAll_append, listingAll_cons, listing_eq t, List.length_append,
    List.length_cons]
  omega

/-- The token and all tokens inside it, in pre-order. -/
def descendants (t : Token) : List Token := descendantsFrom [t]

theorem descendantsFrom_eq_listingAll (pending : List Token) :
    descendantsFrom pending = listingAll pending := by
  fun_induction descendantsFrom pending with
  | case1 => rfl
  | case2 t rest ih =>
    rw [ih, listingAll_append, listingAll_cons, listing_eq t, List.cons_append]

theorem descendants_eq_listing (t : Token) : t.descendants = t.listing := by
  simp [descendants, descendantsFrom_eq_listingAll, listingAll]

end LineTree.Token
