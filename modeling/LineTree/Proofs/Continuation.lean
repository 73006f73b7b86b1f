import LineTree.Token.Path
import LineTree.Proofs.Reports

/-!
# Lines that go on

Text behind a line can change only what is still open at its end: the last token of the line, the
last one inside that, and so on. All other tokens stay where and what they are, and reports that
have been made are not taken back. Main statements: `Move.grown`, `Scan.grown_run`,
`Token.ofLine_append`.
-/
namespace LineTree

namespace Token

/-- The second tree is the first one grown at its right edge: the last token in it may have changed,
in the same way, and others may stand behind that. Nothing is said of a token without children. -/
inductive Grown : Token → Token → Prop
  | childless {t u : Token} (empty : t.children = []) : Grown t u
  | last {t u x y : Token} {earlier later : List Token} (old : t.children = earlier ++ [x])
      (new : u.children = earlier ++ y :: later) (inner : Grown x y) : Grown t u

namespace Grown

variable {t u v : Token}

theorem refl (t : Token) : Grown t t := by
  induction t using Token.induction with
  | node line start literal kind children value ih =>
    rcases List.eq_nil_or_concat children with empty | ⟨earlier, x, same⟩
    · exact .childless empty
    · rw [List.concat_eq_append] at same
      exact .last same same (ih x (by simp [same]))

/-- More children behind the others are growth at the edge. -/
theorem of_append {m : List Token} (same : u.children = t.children ++ m) : Grown t u := by
  rcases List.eq_nil_or_concat t.children with empty | ⟨earlier, x, old⟩
  · exact .childless empty
  · have new : u.children = earlier ++ x :: m := by simp [same, old]
    rw [List.concat_eq_append] at old
    exact .last old new (refl x)

theorem of_children_eq (same : u.children = t.children) : Grown t u :=
  of_append (same.trans (List.append_nil _).symm)

theorem trans (first : Grown t u) (second : Grown u v) : Grown t v := by
  induction first generalizing v with
  | childless empty => exact .childless empty
  | @last t u x y earlier later old new inner ih =>
    cases second with
    | childless empty =>
      rw [new] at empty
      exact absurd empty (by simp)
    | @last _ _ y' z earlier' later' mid final deeper =>
      rw [new] at mid
      -- The last child of the tree between is the grown one, or it has come behind that.
      rcases List.eq_nil_or_concat later with none | ⟨others, w, more⟩
      · subst none
        obtain ⟨rfl, single⟩ := List.append_inj' mid rfl
        obtain rfl := (List.cons.inj single).1
        exact .last old final (ih deeper)
      · rw [List.concat_eq_append] at more
        have split : earlier ++ y :: later = (earlier ++ y :: others) ++ [w] := by simp [more]
        obtain ⟨rfl, -⟩ := List.append_inj' (split.symm.trans mid) rfl
        have new : v.children = earlier ++ y :: (others ++ z :: later') := by simp [final]
        exact .last old new inner

end Grown

/-- The path follows the last child at every level. -/
def isRightmost (t : Token) : List Nat → Bool
  | [] => true
  | i :: path => i + 1 = t.children.length && (t.children[i]?).all (·.isRightmost path)

/-- Away from the edge a grown tree has the tokens that it had. -/
theorem Grown.get?_eq {t u v : Token} {path : List Nat} (h : Grown t u)
    (found : t.get? path = some v) (inside : t.isRightmost path = false) :
    u.get? path = some v := by
  induction h generalizing path with
  | childless empty =>
    cases path with
    | nil => cases inside
    | cons i path => simp [get?, empty] at found
  | @last t u x y earlier later old new inner ih =>
    cases path with
    | nil => cases inside
    | cons i path =>
      rcases Nat.lt_trichotomy i earlier.length with before | here | behind
      · have same : u.children[i]? = t.children[i]? := by
          rw [old, new, List.getElem?_append_left before, List.getElem?_append_left before]
        rw [get?, same]
        exact found
      · have child : t.children[i]? = some x := by simp [old, here]
        have child' : u.children[i]? = some y := by simp [new, here]
        have deeper : x.isRightmost path = false := by
          simpa [isRightmost, child, old, here] using inside
        rw [get?, child, Option.bind_some] at found
        rw [get?, child', Option.bind_some]
        exact ih found deeper
      · have none : t.children[i]? = none := by
          rw [List.getElem?_eq_none_iff, old, List.length_append, List.length_singleton]
          omega
        rw [get?, none] at found
        cases found

end Token

open OpenToken Token

variable {line offset : Nat} {c : Char} {text rest : Text}

namespace OpenToken

variable {a b o : OpenToken}

/-- What grows on top of a token is growth of the token. -/
theorem grown_absorb (h : Grown (a.toToken line) (b.toToken line)) (o : OpenToken) :
    Grown ((o.absorb a line).toToken line) ((o.absorb b line).toToken line) :=
  .last (children_absorb a o) (children_absorb b o) h

theorem grown_collapse (h : Grown (a.toToken line) (b.toToken line)) (below : List OpenToken) :
    Grown ((a.collapse line below).toToken line) ((b.collapse line below).toToken line) := by
  induction below generalizing a b with
  | nil => exact h
  | cons o below ih => exact ih (grown_absorb h o)

theorem grown_push (o : OpenToken) : Grown (o.toToken line) ((o.push c).toToken line) :=
  .of_children_eq rfl

/-- A token that ends on top of another one may be longer than it was, and others may follow it. -/
theorem grown_followed (h : Grown (a.toToken line) (b.toToken line)) (o next : OpenToken) :
    Grown ((o.absorb a line).toToken line)
      (((o.absorb b line).absorb next line).toToken line) := by
  have more : (((o.absorb b line).absorb next line).toToken line).children =
      ((o.absorb b line).toToken line).children ++ [next.toToken line] := children_absorb next _
  exact (grown_absorb h o).trans (.of_append more)

end OpenToken

/-- A move grows the tree that the end of the line would make of the open tokens. -/
theorem Move.grown {o next : OpenToken} {below around : List OpenToken} {events : List ScanEvent}
    (move : Move line offset c (o :: below) (next :: around) events) :
    Grown ((o.collapse line below).toToken line) ((next.collapse line around).toToken line) := by
  cases move with
  | extend effect => exact grown_collapse (grown_push o) below
  | @become _ _ k effect =>
    have same : Grown (o.toToken line) (({ o with kind := k }.push c).toToken line) :=
      .of_children_eq rfl
    exact grown_collapse same below
  | @nest _ _ k effect =>
    have more : Grown (o.toToken line) ((o.absorb (begun k offset c) line).toToken line) :=
      .of_append (children_absorb (begun k offset c) o)
    exact grown_collapse more below
  | @endAfter _ parent _ effect => exact grown_collapse (grown_absorb (grown_push o) parent) around
  | @endWithGap _ parent around effect =>
    exact grown_collapse (grown_followed (grown_push o) parent _) around
  | @closeGroup _ group outer around b effect kind closer =>
    exact grown_collapse (grown_followed (grown_push (group.absorb o line)) outer _) around
  | @mismatch _ parent around b effect closer other =>
    exact grown_collapse (grown_followed (.refl _) parent _) around
  | @openGroup _ parent around b effect opener =>
    exact grown_collapse (grown_followed (.refl _) parent _) around
  | @begin _ parent around effect closer opener =>
    exact grown_collapse (grown_followed (.refl _) parent _) around

namespace Scan

/-- The tree that the end of the line would make of the open tokens. -/
def tree (s : Scan) : Token := (s.top.collapse s.line s.below).toToken s.line

theorem grown_step {s : Scan} (h : Invariant line text (c :: rest) s) :
    Grown s.tree (s.step c).tree := by
  obtain ⟨events, move, -⟩ := h.move
  rw [tree, tree, line_step, h.line_eq]
  exact move.grown

/-- Reading on changes the tree at its edge alone. -/
theorem grown_run {s : Scan} {read : Text} (h : Invariant line text (read ++ rest) s) :
    Grown s.tree (s.run read).tree := by
  induction read generalizing s with
  | nil => exact .refl _
  | cons c read ih => exact (grown_step h).trans (ih (invariant_step h))

/-- Reading on takes no report back. -/
theorem reports_prefix_run {s : Scan} {read : Text} (h : Invariant line text (read ++ rest) s) :
    s.reports <+: (s.run read).reports := by
  induction read generalizing s with
  | nil => exact List.prefix_rfl
  | cons c read ih =>
    obtain ⟨events, -, known⟩ := h.move
    have first : s.reports <+: (s.step c).reports := by
      rw [reports_step known]
      exact List.prefix_append _ _
    exact first.trans (ih (invariant_step h))

end Scan

theorem ScannedLine.tree_eq_tree_run (line : Nat) (text : Text) (report : Bool) :
    (ofText line text report).tree = ((Scan.start line).run text).tree := by
  rw [tree_eq, Scan.tree, (Scan.invariant_end line text).line_eq]

/-- Text behind a line leaves finished tokens alone. A token that is not the line, its last child,
the last child of that and so on is found under the same path in the longer line, unchanged with all
that is in it; and what is reported about the line, open groups aside, is reported first about the
longer line. -/
theorem Token.ofLine_append (line : Nat) (text more : Text) :
    (∀ (path : List Nat) (t : Token), (Token.ofLine line text).get? path = some t →
      (Token.ofLine line text).isRightmost path = false →
        (Token.ofLine line (text ++ more)).get? path = some t) ∧
    (ScannedLine.ofText line text false).diagnostics <+:
      (ScannedLine.ofText line (text ++ more) false).diagnostics := by
  have before : Scan.Invariant line (text ++ more) (text ++ more) (Scan.start line) :=
    Scan.invariant_start line (text ++ more)
  have between : Scan.Invariant line (text ++ more) (more ++ []) ((Scan.start line).run text) := by
    simpa using Scan.invariant_run before
  constructor
  · intro path t found inside
    have grown := Scan.grown_run between
    rw [← Scan.run_append, ← ScannedLine.tree_eq_tree_run line text true,
      ← ScannedLine.tree_eq_tree_run line (text ++ more) true] at grown
    exact grown.get?_eq found inside
  · have kept := Scan.reports_prefix_run between
    rw [← Scan.run_append] at kept
    rw [ScannedLine.diagnostics_eq, ScannedLine.diagnostics_eq]
    simpa using kept

/-- The open group in `a(` goes on and is then closed, but the name in front of it stays. -/
example : (Token.ofLine 0 "a(".toList).get? [1] = (Token.ofLine 0 "a(b)".toList).get? [1] ∧
    (Token.ofLine 0 "a(".toList).get? [2] ≠ (Token.ofLine 0 "a(b)".toList).get? [2] := by
  decide +kernel

end LineTree
