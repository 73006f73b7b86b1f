import LineTree.Proofs.Closing

/-!
# The stack of open tokens

Open tokens stand inside one another, from the innermost one out to the line. Each begins behind
what the one around it has read, may be its next child, and holds only closed tokens that conform
to the grammar. Main statements: `Sound.absorb`, `Sound.place`, `Sound.bottom`.
-/
namespace LineTree

variable {line : Nat} {text rest : Text}

namespace Kind

/-- The kinds that stand first in a line or group, or inside a literal or comment. -/
def isPlaced : Kind → Bool
  | indent | whitespace | escape | commentContent => true
  | _ => false

/-- Whether a token may be the next child is settled by its kind, but for two questions about its
first character. -/
theorem Admits.replace {parent : Kind} {earlier : List Token} {a b : Token}
    (h : parent.Admits earlier a) (kind : b.kind = a.kind)
    (single : a.kind = unresolved → b.literal = a.literal ∨ b.literal.length ≠ 1)
    (head : a.kind = commentContent → b.literal.head? = a.literal.head?) :
    parent.Admits earlier b := by
  cases parent with
  | line | quoted _ | docComment => simpa only [Admits, kind] using h
  | comment => exact ⟨h.1, kind.trans h.2.1, by rw [head h.2.1]; exact h.2.2⟩
  | brackets bracket =>
    refine ⟨by simpa only [kind] using h.1, fun unresolved same => ?_⟩
    rcases single (kind ▸ unresolved) with literal | length
    · exact h.2 (kind ▸ unresolved) (literal ▸ same)
    · simp [same] at length
  | _ => exact h.elim

/-- Items that are not first in their group or line can be exchanged. -/
theorem Admits.exchange {parent : Kind} {earlier : List Token} {a b : Token}
    (h : parent.Admits earlier a) (free : a.kind.isPlaced = false) (item : b.kind.isItem)
    (resolved : b.kind ≠ unresolved) : parent.Admits earlier b := by
  cases parent with
  | line =>
    simp only [Admits] at h ⊢
    split at h
    · simp [h, isPlaced] at free
    · next later => simpa only [if_neg later] using item
  | brackets bracket =>
    refine ⟨?_, fun unresolved => (resolved unresolved).elim⟩
    have first := h.1
    split at first
    · simp [first, isPlaced] at free
    · next later => simpa only [if_neg later] using item
  | quoted q => simp [show a.kind = escape from h, isPlaced] at free
  | comment => simp [h.2.1, isPlaced] at free
  | docComment => simp [h.2, isPlaced] at free
  | _ => exact h.elim

end Kind

namespace OpenToken

/-- The token grows, and all closed tokens inside it conform to the grammar. -/
structure Steady (line : Nat) (text rest : Text) (o : OpenToken) : Prop where
  grows : o.Grows rest
  inside : ∀ d ∈ o.done, ∀ u ∈ d.listing, u.Conforms line text

/-- The open token is the next child of the one around it. -/
structure Within (line : Nat) (o parent : OpenToken) : Prop where
  admits : parent.kind.Admits parent.done.reverse (o.toToken line)
  start : o.start = parent.start + Text.byteLength parent.read

theorem Steady.step {c : Char} {o : OpenToken} (h : o.Steady line text (c :: rest)) :
    o.Steady line text rest := ⟨h.grows.step, h.inside⟩

theorem Within.filled {o parent : OpenToken} (h : o.Within line parent) (escape : o.kind ≠ .escape)
    (content : o.kind ≠ .commentContent) : parent.kind.isFilled :=
  h.admits.filled escape content

/-- A token that ends in front of a character stands in a group or in the line. -/
theorem Within.filled_of_endBefore {o parent : OpenToken} {c : Char} (h : o.Within line parent)
    (effect : o.kind.effect c = .endBefore) : parent.kind.isFilled := by
  obtain ⟨-, escape, -, -, content⟩ := Kind.effect_endBefore effect
  exact h.filled escape content

theorem Within.ne_line {o parent : OpenToken} (h : o.Within line parent) : o.kind ≠ .line :=
  h.admits.inner.1

/-- Another character does not change where the token may stand. -/
theorem Within.push {o parent : OpenToken} {c : Char} (h : o.Within line parent)
    (grows : o.Grows rest) : (o.push c).Within line parent := by
  have literal : ((o.push c).toToken line).literal = (o.toToken line).literal ++ [c] := by
    simp [toToken, OpenToken.push]
  refine ⟨h.admits.replace rfl (fun unresolved => ?_) (fun content => ?_), h.start⟩
  · have kind : o.kind = .unresolved := unresolved
    have spelled := grows.spelled (by rw [kind]; rfl)
    rw [kind] at spelled
    obtain ⟨x, -, single⟩ := spelled
    rw [literal, toToken, single]
    exact Or.inr (by simp)
  · have kind : o.kind = .commentContent := content
    have nonempty := grows.spelled (by rw [kind]; rfl)
    rw [kind] at nonempty
    rw [literal, toToken]
    cases read : o.read.reverse with
    | nil => exact (nonempty read).elim
    | cons x more => rfl

theorem Within.become {o parent : OpenToken} {c : Char} {k : Kind} (h : o.Within line parent)
    (effect : o.kind.effect c = .become k) : ({ o with kind := k }.push c).Within line parent := by
  refine ⟨?_, h.start⟩
  rcases Kind.effect_become effect with ⟨old, -, rfl⟩ | ⟨old, -, rfl⟩ | ⟨old, -, rfl⟩ |
    ⟨old, -, rfl⟩
  all_goals exact h.admits.exchange (by rw [toToken, old]; rfl) rfl (by simp [toToken, OpenToken.push])

/-- A token that holds others stands where it stood, whatever becomes of what it holds. -/
theorem Within.absorb {o parent child : OpenToken} (h : o.Within line parent)
    (inner : child.Within line o) : (o.absorb child line).Within line parent := by
  obtain ⟨f, framed⟩ := Kind.frame?_of_admits inner.admits
  refine ⟨h.admits.replace rfl (fun unresolved => ?_) (fun content => ?_), h.start⟩
  · have kind : o.kind = .unresolved := unresolved
    rw [kind] at framed
    cases framed
  · have kind : o.kind = .commentContent := content
    rw [kind] at framed
    cases framed

end OpenToken

/-- The open tokens of a scan that has still to read `rest`, from the inside out. -/
inductive Sound (line : Nat) (text rest : Text) : List OpenToken → Prop
  | line {o : OpenToken} (kind : o.kind = .line) (start : o.start = 0)
      (steady : o.Steady line text rest) : Sound line text rest [o]
  | inside {o parent : OpenToken} {below : List OpenToken} (within : o.Within line parent)
      (steady : o.Steady line text rest) (around : Sound line text rest (parent :: below)) :
      Sound line text rest (o :: parent :: below)

namespace Sound

variable {o parent : OpenToken} {below : List OpenToken}

theorem steady (h : Sound line text rest (o :: below)) : o.Steady line text rest := by
  cases h with
  | line _ _ steady => exact steady
  | inside _ steady _ => exact steady

theorem step {c : Char} {stack : List OpenToken} (h : Sound line text (c :: rest) stack) :
    Sound line text rest stack := by
  induction h with
  | line kind start steady => exact .line kind start steady.step
  | inside within steady _ ih => exact .inside within steady.step ih

/-- A token begins behind all that the tokens around it have read. -/
theorem place (h : Sound line text rest (o :: below)) :
    Text.byteLength (below.flatMap (·.read)) = o.start := by
  generalize stack : o :: below = all at h
  induction h generalizing o below with
  | line kind start _ =>
    obtain ⟨rfl, rfl⟩ := List.cons.inj stack
    simp [start]
  | @inside _ parent below' within _ _ ih =>
    obtain ⟨rfl, rfl⟩ := List.cons.inj stack
    rw [List.flatMap_cons, Text.byteLength_append, ih rfl, within.start]
    omega

/-- The line is the outermost token, and the only one without another around it. -/
theorem bottom (h : Sound line text rest (o :: below)) : o.kind = .line ↔ below = [] := by
  cases h with
  | line kind _ _ => simp [kind]
  | inside within _ _ => simp [within.ne_line]

/-- The innermost token ends, and becomes a child of the one around it. -/
theorem absorb (around : Sound line text rest (parent :: below)) (within : o.Within line parent)
    (token : (o.toToken line).Conforms line text)
    (inside : ∀ d ∈ o.done, ∀ u ∈ d.listing, u.Conforms line text)
    (final : o.kind = .commentContent → rest = []) :
    Sound line text rest (parent.absorb o line :: below) := by
  have old := around.steady
  have steady : (parent.absorb o line).Steady line text rest := by
    refine ⟨old.grows.absorb within.admits within.start final, fun d member u listed => ?_⟩
    rcases List.mem_cons.1 member with rfl | earlier
    · rcases Token.mem_listing_iff.1 listed with rfl | ⟨c, child, listed⟩
      · exact token
      · exact inside c (by simpa [OpenToken.toToken] using child) u listed
    · exact old.inside d earlier u listed
  cases around with
  | line kind start _ => exact .line kind start steady
  | inside outer _ further => exact .inside (outer.absorb within) steady further

end Sound
end LineTree
