import LineTree.Proofs.Invariant

/-!
# The shape of the stack

Between two characters the open tokens of a line are the line itself, groups inside one another, and
in the innermost group a single token of another kind, with at most an escape or the content of a
comment inside it. They begin one behind the other, at ends of characters. All of it follows from
where tokens may stand. Main statements: `Sound.shape`, `Sound.starts`, `Sound.standing_mem`.
-/
namespace LineTree

namespace Kind

/-- The kinds of tokens that hold no other tokens and are not held by literals and comments. -/
def isSimple : Kind → Bool
  | line | quoted _ | escape | comment | docComment | commentContent | brackets _ | semantic _ => false
  | _ => true

theorem frame?_of_isSimple {k : Kind} (h : k.isSimple) : k.frame? = none := by
  cases k <;> simp [isSimple, frame?] at h ⊢

end Kind

variable {line : Nat} {text rest : Text}

namespace OpenToken

/-- What is open in the innermost group, or in the line, given from the inside out. -/
inductive Innermost : List OpenToken → Prop
  | simple {o : OpenToken} (kind : o.kind.isSimple) (childless : o.done = []) : Innermost [o]
  | literal {o : OpenToken} {q : Quote} (kind : o.kind = .quoted q) : Innermost [o]
  | escape {o literal : OpenToken} {q : Quote} (kind : o.kind = .escape)
      (around : literal.kind = .quoted q) : Innermost [o, literal]
  | comment {o : OpenToken} (kind : o.kind.isComment) : Innermost [o]
  | content {o comment : OpenToken} (kind : o.kind = .commentContent)
      (around : comment.kind.isComment) : Innermost [o, comment]

/-- Open tokens, given from the inside out, that begin inside the line: groups around what is open in
the innermost one. -/
def Shaped (stack : List OpenToken) : Prop :=
  ∃ inner groups, stack = inner ++ groups ∧ Innermost inner ∧ ∀ g ∈ groups, g.kind.isBracket

theorem Shaped.ne_nil {stack : List OpenToken} (h : Shaped stack) : stack ≠ [] := by
  obtain ⟨inner, groups, rfl, innermost, -⟩ := h
  cases innermost <;> simp

end OpenToken

open OpenToken

namespace Sound

variable {o parent : OpenToken} {below : List OpenToken}

/-- From a group outwards there are groups only, and the line around them. -/
theorem groups (h : Sound line text rest (o :: below)) (filled : o.kind.isFilled) :
    ∃ groups whole, o :: below = groups ++ [whole] ∧ (∀ g ∈ groups, g.kind.isBracket) ∧
      whole.kind = .line := by
  generalize stack : o :: below = all at h
  induction h generalizing o below with
  | @line whole kind _ _ => exact ⟨[], whole, rfl, by simp, kind⟩
  | @inside group parent below' within _ _ ih =>
    obtain ⟨rfl, rfl⟩ := List.cons.inj stack
    obtain ⟨b, kind⟩ := (Kind.isFilled_iff.1 filled).resolve_left within.ne_line
    obtain ⟨groups, whole, same, brackets, whole_kind⟩ :=
      ih (within.filled (by simp [kind]) (by simp [kind])) rfl
    refine ⟨o :: groups, whole, by rw [same]; rfl, fun g member => ?_, whole_kind⟩
    rcases List.mem_cons.1 member with rfl | outer
    · rw [kind]
      rfl
    · exact brackets g outer

/-- What is open in the innermost group, or in the line, has groups and the line around it. -/
theorem shape_of_inner {inner : List OpenToken} (h : Sound line text rest (parent :: below))
    (filled : parent.kind.isFilled) (innermost : Innermost inner) :
    ∃ stack whole, inner ++ parent :: below = stack ++ [whole] ∧ Shaped stack ∧
      whole.kind = .line := by
  obtain ⟨groups, whole, same, brackets, kind⟩ := h.groups filled
  refine ⟨inner ++ groups, whole, by rw [same, List.append_assoc], ?_, kind⟩
  exact ⟨inner, groups, rfl, innermost, brackets⟩

/-- An escape or the content of a comment stands in a token that in turn stands in groups. -/
theorem shape_of_outer (h : Sound line text rest (o :: parent :: below))
    (hollow : parent.kind.isFilled = false) (escape : parent.kind ≠ .escape)
    (content : parent.kind ≠ .commentContent) (innermost : Innermost [o, parent]) :
    ∃ stack whole, o :: parent :: below = stack ++ [whole] ∧ Shaped stack ∧ whole.kind = .line := by
  cases h.around with
  | line kind _ _ => simp [kind, Kind.isFilled] at hollow
  | inside within _ around => exact around.shape_of_inner (within.filled escape content) innermost

/-- With neither a group nor the line on top the stack is groups around one token, and the line around
all of them. -/
theorem shape (h : Sound line text rest (o :: below)) (settled : o.kind.isFilled = false) :
    ∃ stack whole, o :: below = stack ++ [whole] ∧ Shaped stack ∧ whole.kind = .line := by
  cases h with
  | line kind _ _ => simp [kind, Kind.isFilled] at settled
  | @inside _ parent below within steady around =>
    have whole : Sound line text rest (o :: parent :: below) := .inside within steady around
    have alone (inner : Innermost [o]) (escape : o.kind ≠ .escape)
        (content : o.kind ≠ .commentContent) : ∃ stack whole,
          o :: parent :: below = stack ++ [whole] ∧ Shaped stack ∧ whole.kind = .line :=
      around.shape_of_inner (within.filled escape content) inner
    cases kind : o.kind with
    | line => exact (within.ne_line kind).elim
    | brackets b => simp [kind, Kind.isFilled] at settled
    | semantic m =>
      have plain := within.admits.inner.2
      simp [toToken, kind, Kind.isSemantic] at plain
    | escape =>
      obtain ⟨q, literal⟩ := within.quoted_of_escape kind
      exact whole.shape_of_outer (by simp [literal, Kind.isFilled]) (by simp [literal])
        (by simp [literal]) (.escape kind literal)
    | commentContent =>
      have comment : parent.kind.isComment := within.admits.comment_of_content kind
      have hollow : parent.kind.isFilled = false ∧ parent.kind ≠ .escape ∧
          parent.kind ≠ .commentContent := by
        rcases Kind.isComment_iff.1 comment with outer | outer <;> simp [outer, Kind.isFilled]
      exact whole.shape_of_outer hollow.1 hollow.2.1 hollow.2.2 (.content kind comment)
    | quoted q => exact alone (.literal kind) (by simp [kind]) (by simp [kind])
    | comment | docComment =>
      exact alone (.comment (by rw [kind]; rfl)) (by simp [kind]) (by simp [kind])
    | _ =>
      have simple : o.kind.isSimple := by
        rw [kind]
        rfl
      have childless : o.done = [] := by
        simpa using steady.grows.admits.eq_nil (Kind.frame?_of_isSimple simple)
      exact alone (.simple simple childless) (by simp [kind]) (by simp [kind])

/-- Nor does a kind that no scan gives stand on top. -/
theorem not_semantic (h : Sound line text rest (o :: below)) (settled : o.kind.isFilled = false) :
    o.kind.isSemantic = false := by
  cases h with
  | line kind _ _ => simp [kind, Kind.isFilled] at settled
  | inside within _ _ => exact within.admits.inner.2

/-- An indent is the only token that is open in its line. -/
theorem indent_alone (h : Sound line text rest (o :: parent :: below)) (kind : o.kind = .indent) :
    below = [] :=
  h.around.bottom.1 (h.within.admits.line_of_indent kind).1

/-- Only the innermost token can be an indent. -/
theorem indent_on_top {stack : List OpenToken} (h : Sound line text rest stack) {p : OpenToken}
    (member : p ∈ stack) (kind : p.kind = .indent) : ∃ whole, stack = [p, whole] := by
  induction h with
  | line line_kind _ _ =>
    obtain rfl := List.mem_singleton.1 member
    cases kind.symm.trans line_kind
  | @inside o parent below within steady around ih =>
    rcases List.mem_cons.1 member with rfl | outer
    · obtain rfl := indent_alone (.inside within steady around) kind
      exact ⟨parent, rfl⟩
    · obtain ⟨whole, same⟩ := ih outer
      obtain ⟨rfl, -⟩ := List.cons.inj same
      obtain ⟨f, framed⟩ := Kind.frame?_of_admits within.admits
      rw [kind] at framed
      cases framed

/-- No open token begins in front of one around it. -/
theorem starts {stack : List OpenToken} (h : Sound line text rest stack) :
    stack.Pairwise fun inner outer => outer.start ≤ inner.start := by
  induction h with
  | line _ _ _ => simp
  | @inside o parent below within _ _ ih =>
    have here : parent.start ≤ o.start := by
      rw [within.start]
      omega
    refine List.pairwise_cons.2 ⟨fun p member => ?_, ih⟩
    rcases List.mem_cons.1 member with rfl | outer
    · exact here
    · exact Nat.le_trans ((List.pairwise_cons.1 ih).1 p outer) here

/-- Nor does one begin behind the place read last. -/
theorem start_le (h : Sound line text rest (o :: below)) {p : OpenToken}
    (member : p ∈ o :: below) : p.start ≤ Text.byteLength ((o :: below).flatMap (·.read)) := by
  rw [h.stop]
  rcases List.mem_cons.1 member with rfl | outer
  · exact Nat.le_add_right _ _
  · exact Nat.le_add_right_of_le ((List.pairwise_cons.1 h.starts).1 p outer)

/-- Where an open token stands in the line, and what it has read. -/
theorem standing_mem {stack : List OpenToken} (h : Sound line text rest stack) {after : Text}
    (reads : text = (stack.flatMap (·.read)).reverse ++ after) {p : OpenToken} (member : p ∈ stack) :
    ∃ before behind, text = before ++ p.read.reverse ++ behind ∧
      Text.byteLength before = p.start := by
  induction h generalizing after with
  | line kind start steady =>
    obtain rfl := List.mem_singleton.1 member
    obtain ⟨before, place, first⟩ := (Sound.line kind start steady).standing reads
    exact ⟨before, after, place, first⟩
  | @inside o parent below within steady around ih =>
    rcases List.mem_cons.1 member with rfl | outer
    · obtain ⟨before, place, first⟩ := (Sound.inside within steady around).standing reads
      exact ⟨before, after, place, first⟩
    · have inner : text =
          ((parent :: below).flatMap (·.read)).reverse ++ (o.read.reverse ++ after) := by
        rw [reads, List.flatMap_cons, List.reverse_append, List.append_assoc]
      exact ih inner outer

end Sound
end LineTree
