import LineTree.Scan.Basic
import LineTree.Proofs.Form

/-!
# How open tokens grow

An open token is always a token that the end of the line could end. The characters that a scan adds
to it, the children that it gets and the changes of its kind keep it so. Main statements:
`OpenToken.Grows.extend`, `OpenToken.Grows.become`, `OpenToken.Grows.absorb`,
`OpenToken.grows_begunBy`.
-/
namespace LineTree

/-- What an open token of the kind is, beyond its form: a number without its unit, a backslash
alone, and a comment that gets its content only once. `rest` is the part of the line not yet read. -/
def Kind.Pending (k : Kind) (rest read : Text) (children : List Token) : Prop :=
  match k with
  | .number => ∀ c ∈ read, isNumberChar c
  | .escape => read = ['\\']
  | .comment | .docComment => children = [] ∨ rest = []
  | _ => True

namespace OpenToken

/-- The token with one more character. -/
def push (o : OpenToken) (c : Char) : OpenToken := { o with read := c :: o.read }

/-- The token with a closed child behind the other ones. -/
def absorb (parent child : OpenToken) (line : Nat) : OpenToken :=
  { parent with
    read := child.read ++ parent.read
    done := child.toToken line :: parent.done }

/-- The last child of a token is the one that it has absorbed last. -/
theorem children_absorb (o parent : OpenToken) {line : Nat} :
    ((parent.absorb o line).toToken line).children = parent.done.reverse ++ [o.toToken line] := by
  simp [toToken, absorb]

/-- The open token has the form of its kind up to the characters that may still come. -/
structure Grows (rest : Text) (o : OpenToken) : Prop where
  admits : o.kind.AdmitsAll o.done.reverse
  framed : ∀ f, o.kind.frame? = some f → ∃ body, o.read.reverse = f.front ++ body ∧
    Laid f.free (o.start + Text.byteLength f.front) body o.done.reverse
  spelled : o.kind.frame? = none → o.kind.Spells o.read.reverse
  pending : o.kind.Pending rest o.read.reverse o.done.reverse

theorem stop_toToken (o : OpenToken) (line : Nat) :
    (o.toToken line).stop = o.start + Text.byteLength o.read := by
  rw [Token.stop, toToken, Text.byteLength_reverse]

/-- A token of a frameless kind that is spelled by its characters. -/
theorem Grows.of_spelled {rest read : Text} {k : Kind} {start : Nat} (frameless : k.frame? = none)
    (spelled : k.Spells read.reverse) (pending : k.Pending rest read.reverse []) :
    Grows rest { kind := k, start, read } where
  admits := k.admitsAll_nil
  framed := fun f framed => by simp [frameless] at framed
  spelled := fun _ => spelled
  pending := pending

/-- A token that has read no more than the front of its frame. -/
theorem Grows.of_front {rest read : Text} {k : Kind} {start : Nat} {f : Frame}
    (framed : k.frame? = some f) (front : read.reverse = f.front)
    (pending : k.Pending rest read.reverse []) : Grows rest { kind := k, start, read } where
  admits := k.admitsAll_nil
  framed := fun g same => by
    obtain rfl : f = g := Option.some.inj (framed.symm.trans same)
    exact ⟨[], by simp [front], .nil _⟩
  spelled := fun frameless => by simp [framed] at frameless
  pending := pending

/-- A comment without children has read nothing behind its slashes. -/
theorem Grows.read_eq_front {rest : Text} {o : OpenToken} (h : o.Grows rest) {f : Frame}
    (framed : o.kind.frame? = some f) (tight : ∀ c, ¬ f.free c) (childless : o.done = []) :
    o.read.reverse = f.front := by
  obtain ⟨body, same, laid⟩ := h.framed f framed
  rw [childless, List.reverse_nil] at laid
  cases laid with
  | nil => rw [same, List.append_nil]
  | char free _ => exact (tight _ free).elim

/-- Reading on changes nothing about the tokens around the innermost one. -/
theorem Grows.step {rest : Text} {c : Char} {o : OpenToken} (h : o.Grows (c :: rest)) :
    o.Grows rest where
  admits := h.admits
  framed := h.framed
  spelled := h.spelled
  pending := by
    have pending := h.pending
    cases kind : o.kind with
    | comment | docComment =>
      rw [kind] at pending
      exact Or.inl (pending.resolve_right (by simp))
    | _ =>
      rw [kind] at pending
      exact pending

end OpenToken

namespace Kind

theorem Spells.number_unitless {t : Text} (h : number.Spells t) (digits : ∀ c ∈ t, isNumberChar c) :
    ∃ first rest, t = first :: rest ∧ first.isDigit ∧ ∀ c ∈ rest, isNumberChar c := by
  obtain ⟨first, rest, unit, rfl, digit, chars, ending⟩ := h
  rcases ending with rfl | ⟨u, suffix, rfl⟩
  · exact ⟨first, rest, by simp, digit, chars⟩
  · have last := digits u (by simp)
    simp [not_isNumberChar_of_isUnitSuffix suffix] at last

theorem forall_mem_append_singleton {p : Char → Prop} {t : Text} {c : Char} (h : ∀ x ∈ t, p x)
    (hc : p c) : ∀ x ∈ t ++ [c], p x := by
  intro x member
  rcases List.mem_append.1 member with old | new
  · exact h x old
  · rwa [List.mem_singleton.1 new]

/-- A character that a kind takes in leads to another text of the kind. -/
theorem Spells.extend {k : Kind} {t rest : Text} {c : Char} {children : List Token}
    (h : k.Spells t) (frameless : k.frame? = none) (pending : k.Pending rest t children)
    (effect : k.effect c = .extend) : k.Spells (t ++ [c]) := by
  rcases effect_extend effect with ⟨rfl, tab⟩ | ⟨rfl, blank⟩ | ⟨rfl | rfl, name⟩ | ⟨rfl, letter⟩ |
    ⟨rfl | rfl, number⟩ | ⟨q, rfl, -⟩ | rfl
  · exact forall_mem_append_singleton h tab
  · exact forall_mem_append_singleton h blank
  · obtain ⟨first, rest, rfl, start, chars⟩ := h
    exact ⟨first, rest ++ [c], rfl, start, forall_mem_append_singleton chars name⟩
  · obtain ⟨first, rest, rfl, start, chars⟩ := h
    exact ⟨first, rest ++ [c], rfl, start, forall_mem_append_singleton chars name⟩
  · obtain ⟨rest, rfl, chars⟩ := h
    exact ⟨rest ++ [c], rfl, forall_mem_append_singleton chars letter⟩
  · obtain ⟨first, rest, rfl, digit, chars⟩ := h.number_unitless pending
    exact ⟨first, rest ++ [c], [], by simp, digit, forall_mem_append_singleton chars number,
      Or.inl rfl⟩
  · obtain ⟨first, left, right, rfl, digit, before, behind⟩ := h
    exact ⟨first, left, right ++ [c], by simp, digit, before,
      forall_mem_append_singleton behind number⟩
  · cases frameless
  · simp [Spells]

theorem Pending.extend {k : Kind} {t rest : Text} {c : Char} {children : List Token}
    (h : k.Pending rest t children) (effect : k.effect c = .extend) :
    k.Pending rest (t ++ [c]) children := by
  rcases effect_extend effect with ⟨rfl, -⟩ | ⟨rfl, -⟩ | ⟨rfl | rfl, -⟩ | ⟨rfl, -⟩ |
    ⟨rfl | rfl, number⟩ | ⟨q, rfl, -⟩ | rfl
  case inr.inr.inr.inr.inl.inl => exact forall_mem_append_singleton h number
  all_goals trivial

end Kind

namespace OpenToken

theorem Grows.extend {rest : Text} {c : Char} {o : OpenToken} (h : o.Grows (c :: rest))
    (effect : o.kind.effect c = .extend) : (o.push c).Grows rest where
  admits := h.admits
  framed := fun f framed => by
    obtain ⟨body, same, laid⟩ := h.framed f framed
    rcases Kind.effect_extend effect with ⟨kind, -⟩ | ⟨kind, -⟩ | ⟨kind | kind, -⟩ | ⟨kind, -⟩ |
      ⟨kind | kind, -⟩ | ⟨q, kind, plain⟩ | kind
    case inr.inr.inr.inr.inr.inl =>
      obtain rfl : _ = f := Option.some.inj ((congrArg Kind.frame? kind).symm.trans framed)
      refine ⟨body ++ [c], ?_, laid.append_char plain⟩
      rw [push, List.reverse_cons, same, List.append_assoc]
    all_goals cases (congrArg Kind.frame? kind).symm.trans framed
  spelled := fun frameless => by
    rw [push, List.reverse_cons]
    exact (h.spelled frameless).extend frameless h.pending effect
  pending := by
    rw [push, List.reverse_cons]
    exact h.step.pending.extend effect

/-- A token that turns into another kind has no children. -/
theorem Grows.childless_of_become {rest : Text} {c : Char} {o : OpenToken} {k : Kind}
    (h : o.Grows (c :: rest)) (effect : o.kind.effect c = .become k) : o.done = [] := by
  have pending := h.pending
  have frameless : o.kind.frame? = none → o.done = [] := fun none => by
    simpa using h.admits.eq_nil none
  rcases Kind.effect_become effect with ⟨kind, -⟩ | ⟨kind, -⟩ | ⟨kind, -⟩ | ⟨kind, -⟩
  · exact frameless (by rw [kind]; rfl)
  · rw [kind] at pending
    simpa using pending.resolve_right (by simp)
  · exact frameless (by rw [kind]; rfl)
  · exact frameless (by rw [kind]; rfl)

theorem Grows.become {rest : Text} {c : Char} {o : OpenToken} {k : Kind} (h : o.Grows (c :: rest))
    (effect : o.kind.effect c = .become k) : ({ o with kind := k }.push c).Grows rest := by
  have childless := h.childless_of_become effect
  obtain ⟨kind, start, read, done⟩ := o
  subst childless
  rcases Kind.effect_become effect with ⟨rfl, rfl, rfl⟩ | ⟨rfl, rfl, rfl⟩ | ⟨rfl, rfl, rfl⟩ |
    ⟨rfl, rfl, rfl⟩
  · obtain ⟨first, left, same, digit, chars⟩ := (h.spelled rfl).number_unitless h.pending
    refine .of_spelled rfl ⟨first, left, [], ?_, digit, chars, by simp⟩ trivial
    rw [List.reverse_cons, same]
  · have slashes := h.read_eq_front rfl (fun _ free => free) rfl
    refine .of_front rfl ?_ (Or.inl rfl)
    rw [List.reverse_cons, slashes]
    rfl
  · have slash : read.reverse = ['/'] := h.spelled rfl
    refine .of_front rfl ?_ (Or.inl rfl)
    rw [List.reverse_cons, slash]
    rfl
  · have colon : read.reverse = [':'] := h.spelled rfl
    refine .of_spelled rfl ?_ trivial
    rw [List.reverse_cons, colon]
    rfl

/-- A closed token becomes the last child of the one around it. A comment gets its content only at
the end of the line. -/
theorem Grows.absorb {rest : Text} {parent child : OpenToken} {line : Nat} (h : parent.Grows rest)
    (admits : parent.kind.Admits parent.done.reverse (child.toToken line))
    (start : child.start = parent.start + Text.byteLength parent.read)
    (final : child.kind = .commentContent → rest = []) : (parent.absorb child line).Grows rest where
  admits := by
    rw [OpenToken.absorb, List.reverse_cons]
    exact h.admits.append admits
  framed := fun f framed => by
    obtain ⟨body, same, laid⟩ := h.framed f framed
    have behind : (child.toToken line).start =
        parent.start + Text.byteLength f.front + Text.byteLength body := by
      rw [Nat.add_assoc, ← Text.byteLength_append, ← same, Text.byteLength_reverse]
      exact start
    refine ⟨body ++ child.read.reverse, ?_, ?_⟩
    · rw [OpenToken.absorb, List.reverse_append, same, List.append_assoc]
    · rw [OpenToken.absorb, List.reverse_cons]
      exact laid.append_token behind
  spelled := fun frameless => by
    obtain ⟨f, framed⟩ := Kind.frame?_of_admits admits
    exact absurd (framed.symm.trans frameless) (by simp)
  pending := by
    obtain ⟨kind, start, read, done⟩ := parent
    cases kind with
    | comment => exact Or.inr (final admits.2.1)
    | docComment => exact Or.inr (final admits.2)
    | number | escape => exact admits.elim
    | _ => trivial

/-- The first character of a token. -/
theorem grows_begunBy (previous : Kind) (c : Char) (start : Nat) (rest : Text) :
    ({ kind := previous.begunBy c, start, read := [c] } : OpenToken).Grows rest := by
  unfold Kind.begunBy
  split
  · next blank => exact .of_spelled rfl (by simpa [Kind.Spells] using blank) trivial
  · next blank =>
    split
    · next digit =>
      exact .of_spelled rfl ⟨c, [], [], rfl, digit, by simp, Or.inl rfl⟩
        (by simpa [Kind.Pending] using Kind.isNumberChar_of_isDigit digit)
    · next digit =>
      split
      · next name =>
        split
        · exact .of_spelled rfl ⟨c, [], rfl, name, by simp⟩ trivial
        · exact .of_spelled rfl ⟨c, [], rfl, name, by simp⟩ trivial
      · next name =>
        split
        · next operator => exact .of_spelled rfl ⟨c, by simpa using operator, rfl⟩ trivial
        · next operator =>
          split
          · next b opener =>
            obtain rfl := Bracket.ofOpener?_eq_some_iff.1 opener
            exact .of_front rfl rfl trivial
          · next opener =>
            have unopened : ∀ b : Bracket, c ≠ b.opener := fun b same => by
              simp [Bracket.ofOpener?_eq_some_iff.2 same] at opener
            split
            case h_10 slash dot hat colon comma equal hash double single =>
              refine .of_spelled rfl ⟨c, ⟨?_, ?_, ?_, ?_⟩, rfl⟩ trivial
              · simpa using blank
              · simpa using digit
              · simpa using name
              · have outside : c ∉ operatorChars := by simpa using operator
                have square := unopened .square
                have round := unopened .round
                have curly := unopened .curly
                simp only [symbolChars, List.mem_append, outside, false_or]
                simp_all [Bracket.opener]
            case h_8 => exact .of_front rfl rfl trivial
            case h_9 => exact .of_front rfl rfl trivial
            case h_7 => exact .of_spelled rfl ⟨[], rfl, by simp⟩ trivial
            all_goals exact .of_spelled rfl rfl trivial

theorem grows_gap (start : Nat) (rest : Text) :
    ({ kind := .whitespace, start } : OpenToken).Grows rest :=
  .of_spelled rfl (by simp [Kind.Spells]) trivial

/-- The first character of a token inside a literal or a comment. -/
theorem grows_nest {outer inner : Kind} {c : Char} (effect : outer.effect c = .nest inner)
    (start : Nat) (rest : Text) :
    ({ kind := inner, start, read := [c] } : OpenToken).Grows rest := by
  rcases Kind.effect_nest effect with ⟨q, rfl, rfl, rfl⟩ | ⟨rfl, -, rfl⟩ | ⟨rfl, rfl⟩
  · exact .of_spelled rfl (Or.inl rfl) rfl
  · exact .of_spelled rfl (by simp [Kind.Spells]) trivial
  · exact .of_spelled rfl (by simp [Kind.Spells]) trivial

end OpenToken
end LineTree
