import LineTree.Proofs.Announced
import LineTree.Proofs.Edges
import LineTree.Proofs.Tiling

/-!
# One account of the brackets

The tree of a line and its reports tell the same of the brackets in it: a closing bracket is
reported exactly if it is a token of its own, and a group exactly if nothing stands behind the last
token inside it. The first is read off the open tokens throughout a scan, the second when they are
closed at the end. Main statements: `Move.mismatches`, `ScannedLine.tree_accounts_for_diagnostics`.
-/
namespace LineTree

variable {line offset : Nat} {text rest : Text} {c : Char}

open OpenToken Token

/-- The reports about unresolved closing brackets that the open tokens, given from the inside out,
have found so far. -/
def openMismatches (line : Nat) : List OpenToken → List Diagnostic
  | [] => []
  | o :: below =>
    openMismatches line below ++
      (below.head?.bind fun parent => mismatch? (parent.toToken line, o.toToken line)).toList ++
      (o.toToken line).mismatches

theorem mismatch?_eq_none {o : OpenToken} (resolved : o.kind ≠ .unresolved) (parent : Token) :
    mismatch? (parent, o.toToken line) = none := by
  rw [mismatch?, stray?_eq_none resolved]
  rfl

/-- The innermost token may change, if it is not unresolved, as long as it finds the same inside. -/
theorem openMismatches_congr {o next : OpenToken} (old : o.kind ≠ .unresolved)
    (new : next.kind ≠ .unresolved)
    (same : (next.toToken line).mismatches = (o.toToken line).mismatches) (below : List OpenToken) :
    openMismatches line (next :: below) = openMismatches line (o :: below) := by
  simp only [openMismatches, mismatch?_eq_none old, mismatch?_eq_none new, same]

theorem openMismatches_push {o : OpenToken} (resolved : o.kind ≠ .unresolved)
    (below : List OpenToken) :
    openMismatches line (o.push c :: below) = openMismatches line (o :: below) := by
  have new : (o.push c).kind ≠ .unresolved := resolved
  exact openMismatches_congr resolved new (mismatches_congr rfl rfl) below

/-- A token that has just begun holds no other ones. -/
theorem openMismatches_begun {o parent : OpenToken} (childless : o.done = [])
    (below : List OpenToken) :
    openMismatches line (o :: parent :: below) = openMismatches line (parent :: below) ++
      (mismatch? (parent.toToken line, o.toToken line)).toList := by
  have empty : (o.toToken line).mismatches = [] :=
    mismatches_eq_nil (by simp [OpenToken.toToken, childless])
  rw [openMismatches, empty, List.append_nil]
  rfl

theorem mismatches_absorb (o parent : OpenToken) :
    ((parent.absorb o line).toToken line).mismatches = (parent.toToken line).mismatches ++
      (mismatch? (parent.toToken line, o.toToken line)).toList ++ (o.toToken line).mismatches := by
  have kind : ((parent.absorb o line).toToken line).kind = (parent.toToken line).kind := rfl
  have before : edgesAll (parent.toToken line) parent.done.reverse = (parent.toToken line).edges :=
    (edges_eq _).symm
  unfold mismatches
  rw [edges_eq, filterMap_edgesAll kind, children_absorb, edgesAll_append,
    List.filterMap_append, before, edgesAll_cons, List.filterMap_cons]
  cases found : mismatch? (parent.toToken line, o.toToken line) with
  | none => simp [edgesAll]
  | some d => simp [edgesAll]

/-- When the innermost token is closed, the token around it takes over what was found inside. -/
theorem openMismatches_absorb {o parent : OpenToken} (resolved : parent.kind ≠ .unresolved)
    (below : List OpenToken) :
    openMismatches line (parent.absorb o line :: below) =
      openMismatches line (o :: parent :: below) := by
  have still : (parent.absorb o line).kind ≠ .unresolved := resolved
  simp only [openMismatches, mismatches_absorb, mismatch?_eq_none resolved,
    mismatch?_eq_none still, List.head?_cons, Option.bind_some, List.append_assoc]

theorem OpenToken.Within.resolved {o parent : OpenToken} (h : o.Within line parent) :
    parent.kind ≠ .unresolved := by
  intro kind
  obtain ⟨f, framed⟩ := Kind.frame?_of_admits h.admits
  rw [kind] at framed
  cases framed

theorem resolved_of_effect {o : OpenToken} (h : o.kind.effect c ≠ .endBefore) :
    o.kind ≠ .unresolved := by
  intro kind
  rw [kind] at h
  exact h rfl

theorem openMismatches_gap {parent : OpenToken} {start : Nat} (below : List OpenToken) :
    openMismatches line (gap start :: parent :: below) = openMismatches line (parent :: below) := by
  have blank : (gap start).kind ≠ .unresolved := by simp [gap]
  rw [openMismatches_begun rfl, mismatch?_eq_none blank]
  exact List.append_nil _

/-- The moves report what can be read off the open tokens. -/
theorem Move.mismatches {stack next : List OpenToken} {events : List ScanEvent}
    (move : Move line offset c stack next events) (sound : Sound line text (c :: rest) stack) :
    openMismatches line next =
      openMismatches line stack ++ events.filterMap ScanEvent.report? := by
  have silent : ∀ found : List Diagnostic, found = found ++ [] := fun found =>
    (List.append_nil found).symm
  cases move with
  | @extend o below effect =>
    have resolved := resolved_of_effect (o := o) (c := c) (by simp [effect])
    rw [openMismatches_push resolved]
    exact silent _
  | @become o below k effect =>
    have childless := sound.steady.grows.childless_of_become effect
    have old := resolved_of_effect (o := o) (c := c) (by simp [effect])
    have new : k ≠ .unresolved := by
      rcases Kind.effect_become effect with ⟨-, -, rfl⟩ | ⟨-, -, rfl⟩ | ⟨-, -, rfl⟩ |
        ⟨-, -, rfl⟩ <;> simp
    have empty : ∀ p : OpenToken, p.done = [] → (p.toToken line).mismatches = [] := fun p none =>
      mismatches_eq_nil (by simp [OpenToken.toToken, none])
    have same := (empty ({ o with kind := k }.push c) childless).trans (empty o childless).symm
    rw [openMismatches_congr old new same]
    exact silent _
  | @nest o below k effect =>
    have new : (begun k offset c).kind ≠ .unresolved := by
      rcases Kind.effect_nest effect with ⟨q, -, -, rfl⟩ | ⟨-, -, rfl⟩ | ⟨-, rfl⟩ <;> simp [begun]
    rw [openMismatches_begun rfl, mismatch?_eq_none new]
    rfl
  | @endAfter o parent below effect =>
    have resolved := resolved_of_effect (o := o) (c := c) (by simp [effect])
    rw [openMismatches_absorb sound.within.resolved, openMismatches_push resolved]
    exact silent _
  | @endWithGap o parent below effect =>
    have resolved := resolved_of_effect (o := o) (c := c) (by simp [effect])
    rw [openMismatches_gap, openMismatches_absorb sound.within.resolved,
      openMismatches_push resolved]
    exact silent _
  | @closeGroup o group outer below b effect kind closer =>
    have resolved : (group.absorb o line).kind ≠ .unresolved := sound.within.resolved
    rw [openMismatches_gap, openMismatches_absorb sound.around.within.resolved,
      openMismatches_push resolved, openMismatches_absorb sound.within.resolved]
    exact silent _
  | @mismatch o parent below b effect closer other =>
    have found : mismatch? ((parent.absorb o line).toToken line,
        (begun .unresolved offset c).toToken line) = some ((Problem.mismatched b
          parent.kind.bracket?).diagnostic line offset (offset + c.utf8Size)) := by
      rw [closer, Problem.mismatched_diagnostic]
      cases b <;> rfl
    rw [openMismatches_begun rfl, found, openMismatches_absorb sound.within.resolved]
    rfl
  | @openGroup o parent below b effect opener =>
    have group : (begun (.brackets b) offset c).kind ≠ .unresolved := by simp [begun]
    rw [openMismatches_gap, openMismatches_begun rfl, mismatch?_eq_none group,
      openMismatches_absorb sound.within.resolved]
    rfl
  | @begin o parent below effect closer opener =>
    have fresh : mismatch? ((parent.absorb o line).toToken line,
        (begun (o.kind.begunBy c) offset c).toToken line) = none := by
      cases kind : o.kind.begunBy c with
      | unresolved => simp [mismatch?, stray?, begun, OpenToken.toToken, closer]
      | _ => exact mismatch?_eq_none (by simp [begun]) _
    rw [openMismatches_begun rfl, fresh, openMismatches_absorb sound.within.resolved]
    rfl

/-- All groups that have been closed inside the open token have their closing bracket. -/
def OpenToken.Complete (o : OpenToken) : Prop :=
  ∀ d ∈ o.done, ∀ u ∈ d.listing, u.unclosed? = none

theorem OpenToken.Complete.listing {o : OpenToken} (h : o.Complete)
    (own : (o.toToken line).unclosed? = none) :
    ∀ u ∈ (o.toToken line).listing, u.unclosed? = none := by
  intro u member
  rcases mem_listing_iff.1 member with rfl | ⟨d, child, inside⟩
  · exact own
  · exact h d (by simpa [OpenToken.toToken] using child) u inside

/-- The moves close only groups that have their closing bracket. -/
theorem Move.closed_complete {stack next : List OpenToken} {events : List ScanEvent}
    (move : Move line offset c stack next events) (sound : Sound line text (c :: rest) stack)
    (settled : ∀ o ∈ stack.head?, o.kind.isFilled = false) :
    ∀ t ∈ events.filterMap ScanEvent.closed?, t.unclosed? = none := by
  have own : ∀ o below, stack = o :: below → ∀ p : OpenToken, p.kind = o.kind →
      (p.toToken line).unclosed? = none := by
    rintro o below rfl p same
    have single : (p.toToken line).kind.bracket? = none := by
      rw [OpenToken.toToken, same]
      exact Kind.bracket?_of_not_isFilled (settled o rfl)
    exact Token.unclosed?_eq_none single
  intro t member
  cases move with
  | extend | become | nest => cases member
  | @endAfter o parent below effect | @endWithGap o parent below effect =>
    obtain rfl := List.mem_singleton.1 member
    exact own o _ rfl (o.push c) rfl
  | @closeGroup o group outer below b effect kind closer =>
    rcases List.mem_cons.1 member with rfl | final
    · exact own o _ rfl o rfl
    · obtain rfl := List.mem_singleton.1 final
      have last : (((group.absorb o line).push c).toToken line).children.getLast? =
          some (o.toToken line) := by
        rw [← List.getLast?_concat (l := group.done.reverse), ← children_absorb]
        rfl
      have reach := sound.within.stop_absorb
      have size := c.utf8Size_pos
      rw [unclosed?, last, Option.map_some, if_neg]
      rw [stop_toToken, stop_toToken, Option.some_inj]
      simp only [OpenToken.push, Text.byteLength_cons]
      omega
  | @mismatch o parent below b effect closer other | @openGroup o parent below b effect opener
  | @begin o parent below effect closer opener =>
    obtain rfl := List.mem_singleton.1 member
    exact own o _ rfl o rfl

/-- At the end of the line a group that takes in another token stays without its closing bracket. -/
theorem unclosedGroups_absorb {o parent : OpenToken} (within : o.Within line parent)
    (complete : parent.Complete) :
    ((parent.absorb o line).toToken line).unclosedGroups =
      (parent.kind.bracket?.map (.unclosed line parent.start)).toList ++
        (o.toToken line).unclosedGroups := by
  have own : unclosedGroup? ((parent.absorb o line).toToken line) =
      parent.kind.bracket?.map (.unclosed line parent.start) := by
    rw [unclosedGroup?, unclosed?, children_absorb, List.getLast?_concat, Option.map_some, if_pos]
    · rfl
    · rw [stop_toToken, stop_toToken, within.stop_absorb]
  have earlier : (listingAll parent.done.reverse).filterMap unclosedGroup? = [] := by
    rw [List.filterMap_eq_nil_iff]
    intro u member
    rw [listingAll_eq_flatMap, List.mem_flatMap] at member
    obtain ⟨d, child, inside⟩ := member
    rw [unclosedGroup?, complete d (by simpa using child) u inside]
    rfl
  have last : listingAll [o.toToken line] = (o.toToken line).listing := List.append_nil _
  unfold unclosedGroups
  rw [descendants_eq_listing, descendants_eq_listing,
    listing_eq ((parent.absorb o line).toToken line), children_absorb, listingAll_append, last,
    List.filterMap_cons, List.filterMap_append, earlier, own, List.nil_append]
  cases parent.kind.bracket?.map (Diagnostic.unclosed line parent.start) <;> rfl

namespace Scan

/-- What the scan has reported so far can be read off its open tokens. -/
theorem reports_run {s : Scan} {read : Text} (h : Invariant line text (read ++ rest) s)
    (same : s.reports = openMismatches line s.openTokens) :
    (s.run read).reports = openMismatches line (s.run read).openTokens := by
  induction read generalizing s with
  | nil => exact same
  | cons c read ih =>
    obtain ⟨events, move, known⟩ := h.move
    exact ih (invariant_step h) (by rw [reports_step known, same, move.mismatches h.sound])

theorem complete_end (line : Nat) (text : Text) :
    ∀ o ∈ ((start line).run text).openTokens, o.Complete := by
  have known := forall_closed_run (fun move sound settled => move.closed_complete sound settled)
    (invariant_whole line text) fun t member => nomatch member
  intro o opened d child u inside
  exact known u (closed_end line text ▸ mem_finished opened child inside)

end Scan

/-- The open tokens at the end of the line, while the innermost ones are closed: what the closed
ones tell, and what is still to come. -/
structure EndAccount (line : Nat) (s : Scan) (o : OpenToken) (below : List OpenToken) : Prop where
  mismatches : s.reports = openMismatches line (o :: below)
  complete : ∀ p ∈ below, p.Complete
  unclosed : s.unclosed = (below.reverse.filterMap fun p =>
    p.kind.bracket?.map (.unclosed line p.start)) ++ (o.toToken line).unclosedGroups
  last : ∀ p u, (p, u) ∈ (o.toToken line).edges → u.unclosed? ≠ none → p.children.getLast? = some u

theorem EndAccount.close {s : Scan} {o parent : OpenToken} {below : List OpenToken}
    (h : EndAccount line s o (parent :: below)) (within : o.Within line parent) :
    EndAccount line s (parent.absorb o line) below where
  mismatches := by rw [h.mismatches, openMismatches_absorb within.resolved]
  complete := fun p member => h.complete p (by simp [member])
  unclosed := by
    rw [h.unclosed, unclosedGroups_absorb within (h.complete parent (by simp)), List.reverse_cons,
      List.filterMap_append, List.append_assoc]
    rfl
  last := by
    have closed : ∀ t ∈ parent.done, ∀ u ∈ t.listing, u.unclosed? = none :=
      h.complete parent (by simp)
    intro p u member reaches
    rw [edges_eq, children_absorb, mem_edgesAll_iff] at member
    simp only [List.mem_append, List.mem_reverse, List.mem_singleton] at member
    rcases member with ⟨rfl, earlier | rfl⟩ | ⟨t, earlier | rfl, inside⟩
    · exact (reaches (closed u earlier u u.self_mem_listing)).elim
    · rw [children_absorb, List.getLast?_concat]
    · exact (reaches (closed t earlier u (mem_listing_of_edge inside))).elim
    · exact h.last p u inside reaches

namespace Scan

/-- The run of a scan leaves no group closed without its closing bracket, and no report out. -/
theorem endAccount (line : Nat) (text : Text) :
    let s := (start line).run text
    EndAccount line s s.top s.below := by
  intro s
  have invariant : Invariant line text [] s := invariant_end line text
  have complete : ∀ o ∈ s.openTokens, o.Complete := complete_end line text
  have single : s.top.kind.bracket? = none := Kind.bracket?_of_not_isFilled invariant.settled
  have hollow : ∀ u ∈ (s.top.toToken line).listing, u.unclosed? = none :=
    (complete s.top (by simp [openTokens])).listing (Token.unclosed?_eq_none single)
  refine ⟨reports_run (invariant_whole line text) rfl, fun p member => complete p (by simp [openTokens, member]), ?_,
    fun p u member reaches => (reaches (hollow u (mem_listing_of_edge member))).elim⟩
  have none : (s.top.toToken line).unclosedGroups = [] := by
    unfold unclosedGroups
    rw [descendants_eq_listing, List.filterMap_eq_nil_iff]
    intro u member
    rw [unclosedGroup?, hollow u member]
    rfl
  rw [unclosed_eq, none, openTokens, List.reverse_cons, List.filterMap_append, invariant.line_eq]
  simp [single]

end Scan

namespace Token

/-- A group reaches the end of the line with its last child, or has its closing bracket behind
that. -/
theorem HasForm.last_of_group {t : Token} {b : Bracket} (h : t.HasForm text)
    (kind : t.kind = .brackets b) : ∃ last, t.children.getLast? = some last ∧
      ((last.stop = t.stop ∧ t.stop = Text.byteLength text) ∨
        (last.stop + 1 = t.stop ∧ t.literal.getLast? = some b.closer)) := by
  obtain ⟨opener, tiled⟩ := h.groupTiled kind
  obtain ⟨last, final⟩ : ∃ last, t.children.getLast? = some last :=
    ⟨_, List.getLast?_eq_some_getLast (h.filled (by rw [kind]; rfl))⟩
  refine ⟨last, final, ?_⟩
  rcases tiled with ⟨closer, tiled⟩ | ⟨stop, tiled⟩
  · have reach := tiled.stop_getLast final
    have nonempty : 0 < t.stop := by
      obtain ⟨c, more, literal⟩ := List.exists_cons_of_ne_nil
        (show t.literal ≠ [] by rintro empty; simp [empty] at opener)
      have size := c.utf8Size_pos
      rw [Token.stop, literal, Text.byteLength_cons]
      omega
    exact Or.inr ⟨by omega, closer⟩
  · exact Or.inl ⟨tiled.stop_getLast final, stop⟩

/-- A group that ends with its last child reaches the end of the line. -/
theorem HasForm.stop_of_unclosed {t : Token} (h : t.HasForm text) (reaches : t.unclosed? ≠ none) :
    t.stop = Text.byteLength text := by
  obtain ⟨b, found⟩ := Option.ne_none_iff_exists'.1 reaches
  obtain ⟨kind, last, final, reach⟩ := unclosed?_eq_some_iff.1 found
  obtain ⟨other, again, ends⟩ := h.last_of_group kind
  obtain rfl : last = other := Option.some.inj (final.symm.trans again)
  rcases ends with ⟨-, stop⟩ | ⟨short, -⟩
  · exact stop
  · omega

/-- Any other group has its closing bracket, one byte long, behind its last child. -/
theorem HasForm.closed_of_group {t : Token} {b : Bracket} (h : t.HasForm text)
    (kind : t.kind = .brackets b) (closed : t.unclosed? = none) :
    t.literal.getLast? = some b.closer ∧
      ∃ last, t.children.getLast? = some last ∧ last.stop + 1 = t.stop := by
  obtain ⟨last, final, ends⟩ := h.last_of_group kind
  rcases ends with ⟨reach, -⟩ | ⟨reach, closer⟩
  · rw [unclosed?_eq_some_iff.2 ⟨kind, last, final, reach⟩] at closed
    cases closed
  · exact ⟨closer, last, final, reach⟩

end Token

namespace ScannedLine

/-- A closing bracket that closes nothing stands in a group or in the line itself. -/
theorem around_stray {report : Bool} {p u : Token} {b : Bracket}
    (edge : (p, u) ∈ (ofText line text report).tree.edges) (stray : u.stray? = some b) :
    u.stop = u.start + 1 ∧
      (p = (ofText line text report).tree ∨ ∃ outer, p.kind = .brackets outer) := by
  obtain ⟨kind, literal⟩ := stray?_eq_some_iff.1 stray
  obtain ⟨listed, child⟩ := mem_edges_iff.1 edge
  obtain ⟨earlier, admits⟩ := (conforms listed).form.admits.mem child
  constructor
  · rw [Token.stop, literal]
    cases b <;> rfl
  · have filled := admits.filled (by simp [kind]) (by simp [kind])
    rcases Kind.isFilled_iff.1 filled with outer | group
    · exact Or.inl (eq_tree_of_line listed outer)
    · exact Or.inr group

/-- When all tokens are closed, the account is that of the tree. -/
theorem account (line : Nat) (text : Text) (report : Bool) :
    ∃ o : OpenToken, o.toToken line = (ofText line text report).tree ∧
      EndAccount line ((Scan.start line).run text) o [] := by
  have invariant := Scan.invariant_end line text
  refine ⟨_, (tree_eq line text report).symm, ?_⟩
  apply invariant.sound.collapse_induction invariant.top_nonempty invariant.reads_end
  · exact Scan.endAccount line text
  · intro o parent below sound account
    exact account.close sound.within

/-- The tree of a line and its reports give one account of its brackets. The errors are about the
closing brackets that are tokens of their own, the warnings about the groups that end with their
last child. Those reach the end of the line, and all other groups have their closing bracket. -/
theorem tree_accounts_for_diagnostics (line : Nat) (text : Text) (report : Bool) :
    let t := Token.ofLine line text
    (ofText line text report).tree = t ∧
    (ofText line text report).diagnostics =
      t.mismatches ++ (if report then t.unclosedGroups else []) ∧
    (∀ p u, (p, u) ∈ t.edges → ∀ b, u.stray? = some b → u.stop = u.start + 1 ∧
      (p = t ∧ t.kind = .line ∨ ∃ outer, p.kind = .brackets outer)) ∧
    (∀ p u, (p, u) ∈ t.edges → u.unclosed? ≠ none →
      u.stop = Text.byteLength text ∧ p.children.getLast? = some u) ∧
    ∀ d ∈ t.descendants, ∀ b, d.kind = .brackets b → d.unclosed? = none →
      d.literal.getLast? = some b.closer ∧
        ∃ last, d.children.getLast? = some last ∧ last.stop + 1 = d.stop := by
  intro t
  have root : IsRoot line text t := isRoot line text true
  have conforms : ∀ d ∈ t.listing, d.Conforms line text := fun d => ScannedLine.conforms
  obtain ⟨o, same, account⟩ := account line text true
  have tree : o.toToken line = t := same
  refine ⟨?_, ?_, ?_, ?_, ?_⟩
  · rw [tree_eq]
    exact (tree_eq line text true).symm
  · have found : openMismatches line [o] = t.mismatches := by
      rw [← tree]
      exact List.nil_append _
    rw [diagnostics_eq, account.mismatches, account.unclosed, found, tree]
    rfl
  · intro p u edge b stray
    obtain ⟨stop, own | group⟩ := around_stray edge stray
    · exact ⟨stop, Or.inl ⟨own, root.kind_eq⟩⟩
    · exact ⟨stop, Or.inr group⟩
  · intro p u edge reaches
    have form := (conforms u (mem_listing_of_edge edge)).form
    exact ⟨form.stop_of_unclosed reaches, account.last p u (tree ▸ edge) reaches⟩
  · intro d member b kind closed
    have form := (conforms d (mem_descendants_iff.1 member)).form
    exact form.closed_of_group kind closed

end ScannedLine
end LineTree
