import LineTree.Token.Basic

/-!
# Paths into a tree

A path names a token inside another one by the index of the child to follow at each level.
-/
namespace LineTree.Token

/-- The token at the end of the path. -/
def get? (t : Token) : List Nat → Option Token
  | [] => some t
  | i :: path => (t.children[i]?).bind (·.get? path)

/-- Replaces the token at the end of the path by its image. A path that leads nowhere changes
nothing. -/
def modify (f : Token → Token) (t : Token) : List Nat → Token
  | [] => f t
  | i :: path =>
    match t.children[i]? with
    | some child => { t with children := t.children.set i (child.modify f path) }
    | none => t

theorem get?_modify {t u : Token} {path : List Nat} (f : Token → Token) (h : t.get? path = some u) :
    (t.modify f path).get? path = some (f u) := by
  induction path generalizing t with
  | nil =>
    obtain rfl := Option.some.inj h
    rfl
  | cons i path ih =>
    obtain ⟨child, hc, hu⟩ := Option.bind_eq_some_iff.1 h
    obtain ⟨hi, hci⟩ := List.getElem?_eq_some_iff.1 hc
    simp [modify, get?, hi, hci, ih hu]

end LineTree.Token
