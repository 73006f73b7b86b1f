import LineTree.Kind
import LineTree.Number.Binary64

/-!
# Tokens

A token is a typed piece of one line together with the tokens inside it. Positions are byte
offsets within the line. The literal covers the text of all tokens inside; the characters between
them, such as quotes and brackets, belong to the token itself.
-/
namespace LineTree

/-- The payload of a decoded literal. -/
inductive Value where
  | integer (n : Int)
  | float (x : Binary64)
  | string (t : Text)
  deriving DecidableEq

structure Token where
  /-- Number of the line, from 0. -/
  line : Nat
  /-- Byte offset of the first character within the line. -/
  start : Nat
  literal : Text
  kind : Kind
  children : List Token := []
  value : Option Value := none

namespace Token

/-- Byte offset behind the last character. -/
def stop (t : Token) : Nat := t.start + Text.byteLength t.literal

/-- The token contains the byte at the offset. -/
def Covers (t : Token) (offset : Nat) : Prop := t.start ≤ offset ∧ offset < t.stop

instance (t : Token) (offset : Nat) : Decidable (t.Covers offset) :=
  inferInstanceAs (Decidable (_ ∧ _))

/-- Induction over a token and all tokens inside it. -/
@[elab_as_elim]
theorem induction {motive : Token → Prop}
    (node : ∀ line start literal kind children value,
      (∀ c ∈ children, motive c) → motive ⟨line, start, literal, kind, children, value⟩)
    (t : Token) : motive t :=
  @Token.rec motive (fun l => ∀ c ∈ l, motive c)
    (fun line start literal kind children value ih =>
      node line start literal kind children value ih)
    (fun _ h => nomatch h)
    (fun head tail hh ht c hc => by
      rcases List.mem_cons.1 hc with rfl | h
      · exact hh
      · exact ht c h)
    t

mutual

/-- Tokens are compared with all tokens inside them. -/
def decideEq : (a b : Token) → Decidable (a = b)
  | ⟨line, start, literal, kind, children, value⟩, ⟨line', start', literal', kind', children', value'⟩ =>
    match decideEqAll children children' with
    | .isFalse h => .isFalse fun e => h (Token.mk.inj e).2.2.2.2.1
    | .isTrue h =>
      if r : line = line' ∧ start = start' ∧ literal = literal' ∧ kind = kind' ∧ value = value' then
        .isTrue (by obtain ⟨rfl, rfl, rfl, rfl, rfl⟩ := r; rw [h])
      else .isFalse fun e => r (by injections; simp_all)

def decideEqAll : (a b : List Token) → Decidable (a = b)
  | [], [] => .isTrue rfl
  | [], _ :: _ => .isFalse (fun h => nomatch h)
  | _ :: _, [] => .isFalse (fun h => nomatch h)
  | a :: l, b :: m =>
    match decideEq a b, decideEqAll l m with
    | .isTrue h, .isTrue h' => .isTrue (by rw [h, h'])
    | .isFalse h, _ => .isFalse fun e => h (List.cons.inj e).1
    | _, .isFalse h => .isFalse fun e => h (List.cons.inj e).2

end

instance : DecidableEq Token := decideEq

end Token
end LineTree
