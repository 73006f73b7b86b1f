import Mathlib.Data.List.Perm.Basic
import LineTree.Check
import LineTree.Proofs.Account
import LineTree.Proofs.Excerpt
import LineTree.Proofs.Runs

/-!
# Findings of a line

What a check has to say about a line can be read off its tree from left to right: an error for each
unresolved token, a warning for each open group. No two of these begin at one place, so the reports
of the scan keep no other error away than those about the same closing brackets. Main statements:
`Token.Grammar.listing_apart`, `ScannedLine.findings_perm`.
-/
namespace LineTree

variable {line number : Nat} {text : Text} {report : Bool}

/-- The kinds of the tokens that a check may find at fault. -/
def Kind.isSuspect : Kind → Bool
  | unresolved | brackets _ => true
  | _ => false

theorem Kind.solid_of_isSuspect {k : Kind} (h : k.isSuspect) : k.isItem ∧ k ≠ .whitespace := by
  cases k <;> simp [isSuspect, isItem] at h ⊢

namespace Token

variable {t u : Token}

theorem Grammar.stop_le (h : t.Grammar line text) (member : u ∈ t.listing) : u.stop ≤ t.stop := by
  obtain ⟨before, after, literal, start⟩ := h.wellPlaced.mem_place member
  simp only [Token.stop, start, literal, Text.byteLength_append]
  omega

theorem HasForm.start_lt_stop (h : t.HasForm text) (item : t.kind.isItem)
    (solid : t.kind ≠ .whitespace) : t.start < t.stop := by
  have nonempty : Text.byteLength t.literal ≠ 0 :=
    (Text.byteLength_eq_zero_iff t.literal).not.2 (h.solid item solid)
  rw [Token.stop]
  omega

/-- The tokens in a group begin behind its opening bracket. -/
theorem HasForm.start_lt_child (h : t.HasForm text) (suspect : t.kind.isSuspect)
    (member : u ∈ t.children) : t.start < u.start := by
  cases kind : t.kind with
  | unresolved =>
    rw [h.admits.eq_nil (congrArg Kind.frame? kind)] at member
    cases member
  | brackets b =>
    obtain ⟨body, laid, -⟩ := h.framed _ (congrArg Kind.frame? kind)
    have behind := (laid.bounds member).1
    have size := b.opener.utf8Size_pos
    simp only [Text.byteLength_cons] at behind
    omega
  | _ => simp [kind, Kind.isSuspect] at suspect

/-- In pre-order everything behind a token stands inside it or begins behind its end. -/
theorem Grammar.listing_apart (h : t.Grammar line text) : t.listing.Pairwise fun a b =>
    (∃ c ∈ a.children, b ∈ c.listing) ∨ a.stop ≤ b.start := by
  induction t using Token.induction with
  | node number start literal kind children value ih =>
    have laid := h.wellPlaced _ (self_mem_listing _)
    rw [listing_eq, listingAll_eq_flatMap, List.pairwise_cons, List.pairwise_flatMap]
    -- Inside the token, within one of its children, and from one child to a later one.
    refine ⟨fun u member => Or.inl (List.mem_flatMap.1 member),
      fun c child => ih c child (h.child child), ?_⟩
    refine laid.ordered.imp_of_mem fun {c d} left right apart a inside b inside' => Or.inr ?_
    calc a.stop ≤ c.stop := (h.child left).stop_le inside
      _ ≤ d.start := apart
      _ ≤ b.start := (h.child right).start_le inside'

/-- In pre-order everything behind a token that may be at fault begins behind its first character. -/
theorem Grammar.listing_ordered (h : t.Grammar line text) :
    t.listing.Pairwise fun a b => a.kind.isSuspect → a.start < b.start := by
  refine h.listing_apart.imp_of_mem fun {a b} left _ apart suspect => ?_
  have grammar := h.inside left
  rcases apart with ⟨c, child, inside⟩ | behind
  · exact (grammar.own.form.start_lt_child suspect child).trans_le
      ((grammar.child child).start_le inside)
  · obtain ⟨item, solid⟩ := Kind.solid_of_isSuspect suspect
    exact (grammar.own.form.start_lt_stop item solid).trans_le behind

/-- Of the tokens that may be at fault no two begin at one place. -/
theorem Grammar.eq_of_start (h : t.Grammar line text) {a b : Token} (left : a ∈ t.listing)
    (right : b ∈ t.listing) (suspect : a.kind.isSuspect) (suspect' : b.kind.isSuspect)
    (start : a.start = b.start) : a = b := by
  have apart : t.listing.Pairwise fun a b =>
      a.kind.isSuspect → b.kind.isSuspect → a.start = b.start → a = b :=
    h.listing_ordered.imp fun before suspect _ same => absurd (before suspect) (by omega)
  have symmetric : Std.Symm fun a b : Token =>
      a.kind.isSuspect → b.kind.isSuspect → a.start = b.start → a = b :=
    ⟨fun a b h left right same => (h right left same.symm).symm⟩
  exact apart.forall_of_forall (fun _ _ _ _ _ => rfl) left right suspect suspect' start

end Token

namespace Diagnostic

/-- The token is a character without a role. -/
def unrecognized (t : Token) : Diagnostic where
  severity := .error
  line := t.line
  start := t.start
  stop := t.stop
  message := "unrecognized character ".toList ++ ('\'' :: t.literal ++ ['\''])
  hint := none

/-- The diagnostic selects one character of the line and quotes it. -/
def Quotes (d : Diagnostic) (text : Text) : Prop :=
  ∃ said c, Text.slice? text d.start d.stop = some [c] ∧ d.message = said ++ ['\'', c, '\'']

/-- The first diagnostic stands in front of the second one, and not at the same place. -/
def Precedes (a b : Diagnostic) : Prop := a.line < b.line ∨ a.line = b.line ∧ a.start < b.start

end Diagnostic

namespace Token

/-- The error about the inner token of an edge, if that is unresolved, or the warning about it if it
is an open group and warnings are wanted. -/
def finding? (report : Bool) (e : Token × Token) : Option Diagnostic :=
  match e.2.kind with
  | .unresolved => some ((mismatch? e).getD (.unrecognized e.2))
  | .brackets _ => if report then unclosedGroup? e.2 else none
  | _ => none

/-- The findings about the tokens in the tree, in pre-order. -/
def findings (report : Bool) (t : Token) : List Diagnostic := t.edges.filterMap (finding? report)

/-- The error about the token, if it is unresolved and not a closing bracket. -/
def plainError? (t : Token) : Option Diagnostic :=
  if t.kind = .unresolved ∧ t.stray? = none then some (.unrecognized t) else none

/-- An unresolved token is at fault as a closing bracket or as another character, and a group as one
that is open, but no token is at fault twice. -/
theorem toList_finding? (report : Bool) (e : Token × Token) : (finding? report e).toList =
    (mismatch? e).toList ++ (if report then unclosedGroup? e.2 else none).toList ++
      (plainError? e.2).toList := by
  have resolved (kind : e.2.kind ≠ .unresolved) : mismatch? e = none ∧ plainError? e.2 = none := by
    simp [mismatch?, plainError?, stray?_eq_none kind, kind]
  unfold finding?
  split
  · next kind =>
    rw [unclosedGroup?_eq_none (by rw [kind]; rfl), ite_self]
    cases stray : e.2.stray? <;> simp [mismatch?, plainError?, kind, stray]
  · next b kind => simp [resolved (by simp [kind])]
  · next plain group =>
    have kind : e.2.kind.bracket? = none := by
      cases own : e.2.kind with
      | brackets b => exact (group b own).elim
      | _ => rfl
    simp [resolved plain, unclosedGroup?_eq_none kind]

variable {t u : Token} {e : Token × Token} {d : Diagnostic}

/-- A finding has the place of its token. -/
theorem place_of_finding? (found : finding? report e = some d) :
    e.2.kind.isSuspect ∧ d.line = e.2.line ∧ d.start = e.2.start := by
  unfold finding? at found
  split at found
  · next kind =>
    obtain rfl := Option.some.inj found
    refine ⟨by rw [kind]; rfl, ?_⟩
    unfold mismatch?
    cases e.2.stray? <;> exact ⟨rfl, rfl⟩
  · next b kind =>
    refine ⟨by rw [kind]; rfl, ?_⟩
    split at found
    · obtain ⟨bracket, -, rfl⟩ := Option.map_eq_some_iff.1 found
      exact ⟨rfl, rfl⟩
    · cases found
  · cases found

/-- The findings are the reports about closing brackets and open groups, and the errors about other
characters. -/
theorem findings_perm (report : Bool) (t : Token) : (t.findings report).Perm
    (t.mismatches ++ t.edges.filterMap (fun e => if report then unclosedGroup? e.2 else none) ++
      t.edges.filterMap fun e => plainError? e.2) := by
  have parts : t.findings report = t.edges.flatMap fun e => (mismatch? e).toList ++
      (if report then unclosedGroup? e.2 else none).toList ++ (plainError? e.2).toList := by
    rw [findings, List.filterMap_eq_flatMap_toList]
    exact List.flatMap_congr fun e _ => toList_finding? report e
  rw [parts, mismatches, List.filterMap_eq_flatMap_toList, List.filterMap_eq_flatMap_toList,
    List.filterMap_eq_flatMap_toList]
  exact ((List.flatMap_append_perm _ _ _).append_right _ |>.trans
    (List.flatMap_append_perm _ _ _)).symm

theorem unclosedGroups_eq (root : t.kind.bracket? = none) :
    t.unclosedGroups = t.edges.filterMap fun e => unclosedGroup? e.2 := by
  rw [unclosedGroups, descendants_eq_edges, List.filterMap_cons, unclosedGroup?_eq_none root,
    List.filterMap_map]
  rfl

theorem unrecognized_eq (root : t.kind ≠ .unresolved) : t.unrecognized =
    t.edges.filterMap fun e =>
      if e.2.kind = .unresolved then some (Diagnostic.unrecognized e.2) else none := by
  rw [unrecognized, descendants_eq_edges, List.filter_cons_of_neg (by simpa using root),
    ← List.filterMap_eq_map, List.filterMap_filter, List.filterMap_map]
  refine List.filterMap_congr fun e _ => ?_
  by_cases kind : e.2.kind = .unresolved
  · simp [kind]
    rfl
  · simp [kind]

/-- The findings about a line stand in order. -/
theorem Grammar.findings_ordered (h : t.Grammar line text) :
    (t.findings report).Pairwise fun a b => a.start < b.start := by
  have inner : t.edges.Pairwise fun a b => a.2.kind.isSuspect → a.2.start < b.2.start := by
    have listed := h.listing_ordered
    rw [listing_eq, ← edges_snd] at listed
    exact List.pairwise_map.1 (List.pairwise_cons.1 listed).2
  refine inner.filterMap _ fun a b apart d found d' found' => ?_
  have place := place_of_finding? found
  have place' := place_of_finding? found'
  have before := apart place.1
  omega

/-- An unresolved token is a single character. -/
theorem HasForm.exists_char (h : t.HasForm text) (kind : t.kind = .unresolved) :
    ∃ c, t.literal = [c] := by
  have spelled := h.spelled (congrArg Kind.frame? kind)
  rw [kind] at spelled
  obtain ⟨c, -, literal⟩ := spelled
  exact ⟨c, literal⟩

/-- Every finding is about one character of the line. -/
theorem Grammar.quotes (h : t.Grammar line text) (member : d ∈ t.findings report) :
    d.line = line ∧ d.Quotes text := by
  obtain ⟨⟨p, u⟩, edge, found⟩ := List.mem_filterMap.1 member
  have conforms := h.conforms u (mem_listing_of_edge edge)
  refine ⟨(place_of_finding? found).2.1.trans conforms.line_eq, ?_⟩
  unfold finding? at found
  split at found
  · next kind =>
    obtain ⟨c, literal⟩ := conforms.form.exists_char kind
    have slice := conforms.slice?_eq
    rw [literal] at slice
    obtain rfl := Option.some.inj found
    cases stray : u.stray? with
    | none =>
      rw [mismatch?, stray]
      exact ⟨"unrecognized character ".toList, c, slice,
        congrArg (fun said => "unrecognized character ".toList ++ ('\'' :: said ++ ['\''])) literal⟩
    | some b =>
      have closer := (stray?_eq_some_iff.1 stray).2
      have stop : u.stop = u.start + 1 := by
        rw [Token.stop, closer]
        cases b <;> rfl
      rw [closer] at literal
      obtain rfl := (List.cons.inj literal).1
      rw [stop] at slice
      rw [mismatch?, stray]
      exact ⟨_, _, slice, rfl⟩
  · next b kind =>
    split at found
    · obtain ⟨b', group, rfl⟩ := Option.map_eq_some_iff.1 found
      have kind := (unclosed?_eq_some_iff.1 group).1
      obtain ⟨behind, literal⟩ := conforms.form.front (congrArg Kind.frame? kind)
      obtain ⟨before, after, place, start, -⟩ := conforms.place
      have size : Text.byteLength [b'.opener] = 1 := by cases b' <;> rfl
      refine ⟨"unclosed ".toList, b'.opener, ?_, rfl⟩
      exact Text.slice?_eq_some_iff.2
        ⟨before, behind ++ after, by rw [place, literal]; simp, start, by rw [size]; rfl⟩
    · cases found
  · cases found

end Token

open Token

namespace ScannedLine

/-- The reports of the scan can be read off the tree. -/
theorem diagnostics_eq_tree (line : Nat) (text : Text) (report : Bool) :
    (ofText line text report).diagnostics = (Token.ofLine line text).mismatches ++
      if report then (Token.ofLine line text).unclosedGroups else [] := by
  obtain ⟨o, same, account⟩ := account line text true
  have tree : o.toToken line = Token.ofLine line text := same
  have found : openMismatches line [o] = (Token.ofLine line text).mismatches := by
    rw [← tree]
    exact List.nil_append _
  rw [diagnostics_eq, account.mismatches, account.unclosed, found, tree]
  rfl

/-- A report is about a closing bracket or a group, and has the place of its token. -/
theorem exists_token_of_report {d : Diagnostic}
    (member : d ∈ (ofText line text report).diagnostics) :
    ∃ u ∈ (Token.ofLine line text).listing, u.kind.isSuspect ∧ d.line = u.line ∧
      d.start = u.start ∧ (u.kind = .unresolved → u.stray? ≠ none) := by
  rw [diagnostics_eq_tree] at member
  rcases List.mem_append.1 member with mismatch | unclosed
  · obtain ⟨⟨p, u⟩, edge, found⟩ := List.mem_filterMap.1 mismatch
    obtain ⟨b, stray, rfl⟩ := Option.map_eq_some_iff.1 found
    have kind : u.kind = .unresolved := (stray?_eq_some_iff.1 stray).1
    exact ⟨u, mem_listing_of_edge edge, by rw [kind]; rfl, rfl, rfl,
      fun _ => Option.ne_none_iff_exists'.2 ⟨b, stray⟩⟩
  · split at unclosed
    · obtain ⟨u, listed, found⟩ := List.mem_filterMap.1 unclosed
      obtain ⟨b, group, rfl⟩ := Option.map_eq_some_iff.1 found
      have kind : u.kind = .brackets b := (unclosed?_eq_some_iff.1 group).1
      exact ⟨u, mem_descendants_iff.1 listed, by rw [kind]; rfl, rfl, rfl,
        fun unresolved => by simp [kind] at unresolved⟩
    · cases unclosed

/-- An unresolved token stands where a report is made exactly if it is a closing bracket. -/
theorem reported_iff (report : Bool) {p u : Token} (edge : (p, u) ∈ (Token.ofLine line text).edges)
    (kind : u.kind = .unresolved) :
    (∃ d ∈ (ofText line text report).diagnostics, d.line = u.line ∧ d.start = u.start) ↔
      u.stray? ≠ none := by
  constructor
  · rintro ⟨d, member, -, start⟩
    obtain ⟨v, listed, suspect, -, start', stray⟩ := exists_token_of_report member
    -- The report cannot be about another token, not even about a group that is open here.
    obtain rfl : v = u := (grammar_ofLine line text).eq_of_start listed (mem_listing_of_edge edge)
      suspect (by rw [kind]; rfl) (start'.symm.trans start)
    exact stray kind
  · intro found
    rw [diagnostics_eq_tree]
    obtain ⟨b, stray⟩ := Option.ne_none_iff_exists'.1 found
    refine ⟨.mismatched u.line u.start b p.kind.bracket?, List.mem_append_left _ ?_, rfl, rfl⟩
    exact List.mem_filterMap.2 ⟨(p, u), edge, by simp [mismatch?, stray]⟩

/-- The check finds what can be read off the tree of the line. -/
theorem findings_perm (line : Nat) (text : Text) (report : Bool) :
    (ofText line text report).findings.Perm ((Token.ofLine line text).findings report) := by
  have root := Token.kind_ofLine line text
  have others : ((Token.ofLine line text).unrecognized.filter fun u =>
      !((ofText line text report).diagnostics.any fun d => d.line = u.line && d.start = u.start)) =
        (Token.ofLine line text).edges.filterMap fun e => plainError? e.2 := by
    rw [unrecognized_eq (by simp [root]), List.filter_filterMap]
    refine List.filterMap_congr fun ⟨p, u⟩ edge => ?_
    by_cases kind : u.kind = .unresolved
    · have reported : ((ofText line text report).diagnostics.any fun d =>
          d.line = (Diagnostic.unrecognized u).line &&
            d.start = (Diagnostic.unrecognized u).start) = u.stray?.isSome := by
        rw [Bool.eq_iff_iff, List.any_eq_true, Option.isSome_iff_ne_none]
        simp only [Bool.and_eq_true, decide_eq_true_eq]
        exact reported_iff report edge kind
      rw [if_pos kind, Option.filter_some, reported]
      cases stray : u.stray? <;> simp [plainError?, kind, stray]
    · simp [plainError?, kind]
  have warnings : (Token.ofLine line text).edges.filterMap
      (fun e => if report then unclosedGroup? e.2 else none) =
        if report then (Token.ofLine line text).unclosedGroups else [] := by
    cases report with
    | false => simp
    | true => exact (unclosedGroups_eq (by rw [root]; rfl)).symm
  have parts := Token.findings_perm report (Token.ofLine line text)
  rw [warnings, ← diagnostics_eq_tree, ← others] at parts
  rw [findings, tree_eq_ofLine]
  exact parts.symm

end ScannedLine
end LineTree
