import LineTree.Program
import LineTree.Proofs.Runs
import LineTree.Proofs.Placement

/-!
# Trees as they are shown

The trees that are written are those of the lines. As the switches of the command say, each token
has the value of its literal, and whitespace is left out. Nothing else changes. Main statements:
`Token.shown_eq`, `Token.forall_listing_shown`, `Document.getElem?_shownTrees`,
`Output.wholeText_tokens_plain`, `Output.wholeText_tokens_json`.
-/
namespace LineTree

namespace Token

/-- The tree with values or without, and with whitespace or without. -/
def shown (stripWhitespace values : Bool) (t : Token) : Token :=
  let t := if values then t.withValues else t
  if stripWhitespace then t.stripped else t

variable {stripWhitespace values : Bool}

theorem kind_withValues (t : Token) : t.withValues.kind = t.kind := by rw [withValues_eq]

/-- Each token keeps all it has but its value and the whitespace inside. -/
theorem shown_eq (t : Token) : t.shown stripWhitespace values =
    { t with
      children := (t.children.filter fun c => !stripWhitespace || c.kind ≠ .whitespace).map
        (shown stripWhitespace values)
      value := if values then t.decoded? else t.value } := by
  have all : t.children.filter (fun _ => true) = t.children := List.filter_eq_self.2 fun _ _ => rfl
  cases stripWhitespace with
  | false =>
    cases values with
    | false =>
      have same : shown false false = id := rfl
      simp only [same, Bool.not_false, Bool.true_or, all, List.map_id]
      cases t
      rfl
    | true =>
      have same : shown false true = withValues := rfl
      simp [same, all, withValues_eq t]
  | true =>
    cases values with
    | false =>
      have same : shown true false = stripped := rfl
      simp [same, stripped_eq t]
    | true =>
      have same : shown true true = fun t => t.withValues.stripped := rfl
      rw [same]
      dsimp only
      rw [stripped_eq, withValues_eq]
      simp [List.filter_map, kind_withValues, Function.comp_def]

/-- What holds of every token of a tree carries over to the tree as it is shown. -/
theorem forall_listing_shown {P Q : Token → Prop} {t : Token}
    (own : ∀ u children, P u →
      Q { u with children, value := if values then u.decoded? else u.value })
    (h : ∀ u ∈ t.listing, P u) : ∀ u ∈ (t.shown stripWhitespace values).listing, Q u := by
  induction t using Token.induction with
  | node line start literal kind children value ih =>
    intro u member
    rw [shown_eq] at member
    rcases mem_listing_iff.1 member with rfl | ⟨c, child, inside⟩
    · exact own _ _ (h _ (self_mem_listing _))
    · obtain ⟨d, kept, rfl⟩ := List.mem_map.1 child
      have old : d ∈ children := (List.mem_filter.1 kept).1
      exact ih d old (fun v below => h v (mem_listing_iff.2 (Or.inr ⟨d, old, below⟩))) u inside

/-- A line shows the values of its literals, or none. -/
theorem value_shown {line : Nat} {text : Text} :
    ∀ u ∈ ((ofLine line text).shown stripWhitespace values).listing,
      u.value = if values then u.decoded? else none := by
  have bare : ∀ u ∈ (ofLine line text).listing, u.value = none := fun u member =>
    (ScannedLine.conforms member).value_eq
  refine forall_listing_shown (fun u children (own : u.value = none) => ?_) bare
  rw [own]
  rfl

end Token

namespace Document

/-- The trees that are written. -/
def shownTrees (d : Document) (stripWhitespace values : Bool) : List Token :=
  d.trees.map (Token.shown stripWhitespace values)

theorem length_shownTrees (settings : Settings) (source : Text) (stripWhitespace values : Bool) :
    ((ofText settings source).shownTrees stripWhitespace values).length =
      (Text.lines source).length := by
  rw [shownTrees, trees_ofText, Token.ofLines, List.length_map, List.length_map, List.length_zipIdx]

theorem getElem?_shownTrees (settings : Settings) {source piece : Text} {i : Nat}
    (found : (Text.lines source)[i]? = some piece) (stripWhitespace values : Bool) :
    ((ofText settings source).shownTrees stripWhitespace values)[i]? =
      some ((Token.ofLine i piece).shown stripWhitespace values) := by
  rw [shownTrees, trees_ofText, Token.ofLines, List.getElem?_map, List.getElem?_map,
    List.getElem?_zipIdx, found]
  simp

/-- Every tree that is written is that of a line. -/
theorem exists_line_of_mem_shownTrees {settings : Settings} {source : Text}
    {stripWhitespace values : Bool} {t : Token}
    (member : t ∈ (ofText settings source).shownTrees stripWhitespace values) :
    ∃ line piece, t = (Token.ofLine line piece).shown stripWhitespace values := by
  rw [shownTrees, trees_ofText] at member
  obtain ⟨u, listed, rfl⟩ := List.mem_map.1 member
  obtain ⟨⟨piece, line⟩, -, rfl⟩ := List.mem_map.1 listed
  exact ⟨line, piece, rfl⟩

end Document

namespace Output

theorem shownTrees_eq (d : Document) (stripWhitespace values : Bool) :
    (let trees := if values then d.trees.map Token.withValues else d.trees
     if stripWhitespace then trees.map Token.stripped else trees) =
      d.shownTrees stripWhitespace values := by
  have plain : Token.shown false false = id := rfl
  cases stripWhitespace <;> cases values <;>
    simp [Document.shownTrees, plain, Token.shown, Function.comp_def]

/-- The dumps of the trees, one after the other. -/
theorem wholeText_tokens_plain (d : Document) (stripWhitespace values : Bool) :
    wholeText (tokens d false stripWhitespace values).pieces =
      (d.shownTrees stripWhitespace values).flatMap Token.dump := by
  rw [← shownTrees_eq]
  exact List.flatMap_map ..

/-- An array of the trees, and a newline. -/
theorem wholeText_tokens_json (d : Document) (stripWhitespace values : Bool) :
    wholeText (tokens d true stripWhitespace values).pieces =
      (Json.array ((d.shownTrees stripWhitespace values).map Token.toJson)).render ++ ['\n'] := by
  rw [← shownTrees_eq]
  simp [tokens, wholeText]

end Output
end LineTree
