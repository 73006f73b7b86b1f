import LineTree.Token.Basic

/-!
# The text that a token covers

The text of a token read off its tree: rebuilt from the tokens inside and the characters between
them, cleaned of whitespace tokens, and asked for the token at an offset. None of it asks that
the tree is well formed: what lies outside the token's literal is passed over.
-/
namespace LineTree

/-- The part of a text from offset `first` up to offset `last`, where the text begins at offset
`origin`. Empty if the offsets are out of order, outside the text or inside a character. -/
def Text.gap (t : Text) (origin first last : Nat) : Text :=
  if origin ≤ first ∧ first < last then
    (slice? t (first - origin) (last - origin)).getD []
  else []

namespace Token

mutual

/-- The text of the tokens inside and of the gaps in front of, between and behind them. -/
def rebuild : Token → Text
  | ⟨_, start, literal, _, children, _⟩ => rebuildFrom start literal start children

/-- The rest of the text from the offset on, with these tokens in it. -/
def rebuildFrom (origin : Nat) (literal : Text) (offset : Nat) : List Token → Text
  | [] => literal.gap origin offset (origin + Text.byteLength literal)
  | t :: rest =>
    literal.gap origin offset t.start ++ t.rebuild ++ rebuildFrom origin literal t.stop rest

end

theorem rebuild_eq (t : Token) :
    t.rebuild = rebuildFrom t.start t.literal t.start t.children := by
  cases t
  rfl

mutual

/-- The innermost token that contains the byte at the offset. -/
def innermost? : Token → Nat → Option Token
  | ⟨line, start, literal, kind, children, value⟩, offset =>
    if Covers ⟨line, start, literal, kind, children, value⟩ offset then
      some ((innermostAmong? children offset).getD ⟨line, start, literal, kind, children, value⟩)
    else none

/-- The answer of the first token that has one. -/
def innermostAmong? : List Token → Nat → Option Token
  | [], _ => none
  | t :: rest, offset =>
    match t.innermost? offset with
    | some found => some found
    | none => innermostAmong? rest offset

end

theorem innermostAmong?_eq_findSome? (l : List Token) (offset : Nat) :
    innermostAmong? l offset = l.findSome? (·.innermost? offset) := by
  induction l with
  | nil => rfl
  | cons t l ih =>
    rw [innermostAmong?, List.findSome?_cons, ih]
    cases t.innermost? offset <;> rfl

theorem innermost?_eq (t : Token) (offset : Nat) :
    t.innermost? offset =
      if t.Covers offset then some ((t.children.findSome? (·.innermost? offset)).getD t)
      else none := by
  cases t
  rw [innermost?, innermostAmong?_eq_findSome?]

mutual

/-- Drops the whitespace tokens, at every depth. The token itself stays. -/
def stripped : Token → Token
  | ⟨line, start, literal, kind, children, value⟩ =>
    ⟨line, start, literal, kind, strippedAll children, value⟩

def strippedAll : List Token → List Token
  | [] => []
  | t :: rest => if t.kind = .whitespace then strippedAll rest else t.stripped :: strippedAll rest

end

theorem strippedAll_eq_map (l : List Token) :
    strippedAll l = (l.filter (·.kind ≠ .whitespace)).map stripped := by
  induction l with
  | nil => rfl
  | cons t l ih =>
    by_cases h : t.kind = .whitespace <;> simp [strippedAll, h, ih]

theorem stripped_eq (t : Token) :
    t.stripped = { t with children := (t.children.filter (·.kind ≠ .whitespace)).map stripped } := by
  cases t
  rw [stripped, strippedAll_eq_map]

/-- The children that are not whitespace. -/
def solidChildren (t : Token) : List Token := t.children.filter (·.kind ≠ .whitespace)

/-- The text of a comment behind its slashes; only comments have one. -/
def commentText? (t : Token) : Option Text :=
  match t.kind with
  | .comment | .docComment =>
    match t.children.find? (·.kind = .commentContent) with
    | some content => some content.literal
    | none => some []
  | _ => none

end Token
end LineTree
