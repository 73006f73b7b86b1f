import LineTree.Proofs.Finish

/-!
# The lexical grammar of a line

What a token of each kind looks like, kind by kind, and that every token of a scanned line looks so
and is the longest one at its place. Main statement: `Token.ofLine_lexical`.
-/
namespace LineTree.Token

/-- The text of a comment behind its slashes, which is the only child if there is any. -/
def HasContent (t : Token) (slashes content : Text) : Prop :=
  t.literal = slashes ++ content ∧
    ((content = [] ∧ t.children = []) ∨
      (content ≠ [] ∧ ∃ c, t.children = [c] ∧ c.kind = .commentContent ∧ c.literal = content ∧
        c.start = t.start + Text.byteLength slashes))

/-- The lexical grammar of the tokens inside the line `text`. -/
def Lexical (text : Text) (t : Token) : Prop :=
  match t.kind with
  | .quoted q => (∀ e ∈ t.children, e.kind = .escape) ∧
      ∃ body, Laid q.IsPlain (t.start + 1) body t.children ∧
        (t.literal = q.mark :: body ++ [q.mark] ∨
          t.literal = q.mark :: body ∧ t.stop = Text.byteLength text)
  | .escape => t.children = [] ∧
      ((∃ c, t.literal = ['\\', c]) ∨ t.literal = ['\\'] ∧ t.stop = Text.byteLength text)
  | .comment => t.stop = Text.byteLength text ∧
      ∃ content, t.HasContent ['/', '/'] content ∧ content.head? ≠ some '/'
  | .docComment => t.stop = Text.byteLength text ∧ ∃ content, t.HasContent ['/', '/', '/'] content
  | .commentContent => t.children = [] ∧ t.literal ≠ [] ∧ t.stop = Text.byteLength text
  | .brackets b => (∀ c ∈ t.children, c.kind.isItem ∧
        (c.kind = .unresolved → c.literal ≠ [b.closer])) ∧
      ∃ body, Laid (fun _ => False) (t.start + 1) body t.children ∧
        (t.literal = b.opener :: body ++ [b.closer] ∨
          t.literal = b.opener :: body ∧ t.stop = Text.byteLength text)
  | .line | .semantic _ => False
  | k => t.children = [] ∧ k.Spells t.literal

variable {line : Nat} {text : Text} {t : Token}

/-- Behind its slashes a comment is empty or has its content as the only child. -/
theorem HasForm.hasContent {slashes : Text} (h : t.HasForm text)
    (framed : t.kind.frame? = some { front := slashes })
    (only : ∀ earlier child, t.kind.Admits earlier child →
      earlier = [] ∧ child.kind = .commentContent)
    (content : ∀ c ∈ t.children, c.literal ≠ []) :
    t.stop = Text.byteLength text ∧ ∃ body, t.HasContent slashes body := by
  obtain ⟨body, laid, literal⟩ := h.framed _ framed
  have same : t.literal = slashes ++ body ∧ t.stop = Text.byteLength text := by
    rcases literal with ⟨last, final, -⟩ | same
    · cases final
    · exact same
  refine ⟨same.2, body, same.1, ?_⟩
  cases children : t.children with
  | nil =>
    rw [children] at laid
    cases laid with
    | nil => exact Or.inl ⟨rfl, rfl⟩
    | char free _ => exact free.elim
  | cons c rest =>
    rw [children] at laid content
    have first := only [] c (h.admits [] c rest children)
    have single : rest = [] := by
      cases rest with
      | nil => rfl
      | cons d rest =>
        have second := only [c] d (h.admits [c] d rest children)
        simp at second
    subst single
    cases laid with
    | char free _ => exact free.elim
    | @token _ _ more _ placed behind =>
      cases behind with
      | char free _ => exact free.elim
      | nil =>
        rw [List.append_nil]
        exact Or.inr ⟨content c (by simp), c, rfl, first.2, rfl, placed⟩

/-- A token without a frame is spelled by its characters alone. -/
theorem HasForm.leaf (h : t.HasForm text) (frameless : t.kind.frame? = none) :
    t.children = [] ∧ t.kind.Spells t.literal :=
  ⟨h.admits.eq_nil frameless, h.spelled frameless⟩

theorem HasForm.lexical (h : t.HasForm text) (inside : ∀ c ∈ t.children, c.HasForm text)
    (inner : t.kind ≠ .line) (lexical : t.kind.isSemantic = false) : t.Lexical text := by
  obtain ⟨number, start, literal, kind, children, value⟩ := t
  have contents : (∀ c ∈ children, c.kind = .commentContent) → ∀ c ∈ children, c.literal ≠ [] := by
    intro kinds c member
    have spelled := (inside c member).spelled (by rw [kinds c member]; rfl)
    rwa [kinds c member] at spelled
  cases kind with
  | line => exact (inner rfl).elim
  | semantic meaning => cases lexical
  | quoted q =>
    obtain ⟨body, laid, spelled⟩ := h.framed _ rfl
    rw [q.byteLength_mark] at laid
    refine ⟨fun e member => ?_, body, laid, ?_⟩
    · obtain ⟨earlier, admits⟩ := h.admits.mem member
      exact admits
    · rcases spelled with ⟨last, final, same⟩ | cut
      · obtain rfl : q.mark = last := Option.some.inj final
        exact Or.inl same
      · exact Or.inr cut
  | brackets b =>
    have size : Text.byteLength [b.opener] = 1 := by cases b <;> rfl
    obtain ⟨body, laid, spelled⟩ := h.framed _ rfl
    rw [size] at laid
    refine ⟨fun c member => ?_, body, laid, ?_⟩
    · obtain ⟨earlier, first, stray⟩ := h.admits.mem member
      refine ⟨?_, stray⟩
      split at first
      · rw [first]
        rfl
      · exact first
    · rcases spelled with ⟨last, final, same⟩ | cut
      · obtain rfl : b.closer = last := Option.some.inj final
        exact Or.inl same
      · exact Or.inr cut
  | comment =>
    have kinds : ∀ c ∈ children, c.kind = .commentContent := fun c member => by
      obtain ⟨earlier, -, kind, -⟩ := h.admits.mem member
      exact kind
    have framed : Kind.comment.frame? = some { front := ['/', '/'] } := rfl
    obtain ⟨stop, body, content⟩ := h.hasContent framed
      (fun earlier child admits => ⟨admits.1, admits.2.1⟩) (contents kinds)
    refine ⟨stop, body, content, ?_⟩
    rcases content.2 with ⟨rfl, -⟩ | ⟨-, c, same, -, rfl, -⟩
    · simp
    · exact (h.admits [] c [] same).2.2
  | docComment =>
    have kinds : ∀ c ∈ children, c.kind = .commentContent := fun c member => by
      obtain ⟨earlier, -, kind⟩ := h.admits.mem member
      exact kind
    exact h.hasContent rfl (fun earlier child admits => admits) (contents kinds)
  | escape =>
    obtain ⟨childless, spelled⟩ := h.leaf rfl
    refine ⟨childless, ?_⟩
    rcases spelled with alone | whole
    · exact Or.inr ⟨alone, h.endsLine alone⟩
    · exact Or.inl whole
  | commentContent =>
    obtain ⟨childless, spelled⟩ := h.leaf rfl
    exact ⟨childless, spelled, h.endsLine trivial⟩
  | _ => exact h.leaf rfl

/-- Every token inside a scanned line has the lexical form of its kind, and no longer text at its
place has it. The indent comes first and nowhere else. -/
theorem ofLine_lexical (line : Nat) (text : Text) :
    let t := Token.ofLine line text
    (∃ indent rest, t.children = indent :: rest ∧ indent.kind = .indent ∧
      ∀ d ∈ rest, d.kind.isItem) ∧
    (∀ p ∈ t.descendants, ∀ c ∈ p.children, c.kind = .indent →
      p = t ∧ t.children.head? = some c) ∧
    ∀ c ∈ t.children, ∀ d ∈ c.descendants, d.Lexical text ∧
      ∃ before after, text = before ++ d.literal ++ after ∧ Text.byteLength before = d.start ∧
        d.kind.Longest d.literal after := by
  intro t
  have root : ScannedLine.IsRoot line text t := ScannedLine.isRoot line text true
  have conforms : ∀ d ∈ t.listing, d.Conforms line text := fun d => ScannedLine.conforms
  refine ⟨?_, fun p member c own kind => ?_, fun c child d member => ?_⟩
  · have form := (conforms t t.self_mem_listing).form
    have nonempty := form.filled (by rw [root.kind_eq]; rfl)
    obtain ⟨indent, rest, children⟩ := List.exists_cons_of_ne_nil nonempty
    have first := form.admits [] indent rest children
    rw [root.kind_eq] at first
    refine ⟨indent, rest, children, first, fun d later => ?_⟩
    obtain ⟨earlier, behind, same⟩ := List.append_of_mem later
    have admits := form.admits (indent :: earlier) d behind (by rw [children, same]; rfl)
    rwa [root.kind_eq] at admits
  · have listed := mem_descendants_iff.1 member
    obtain ⟨earlier, later, children⟩ := List.append_of_mem own
    have admits := (conforms p listed).form.admits earlier c later children
    obtain ⟨outer, rfl⟩ := admits.line_of_indent kind
    obtain rfl : p = t := ScannedLine.eq_tree_of_line listed outer
    exact ⟨rfl, by rw [children]; rfl⟩
  · have listed := mem_descendants_iff.1 member
    have inside : d ∈ t.listing := mem_listing_iff.2 (Or.inr ⟨c, child, listed⟩)
    obtain ⟨p, parent, own⟩ := exists_parent child listed
    obtain ⟨earlier, admits⟩ := (conforms p parent).form.admits.mem own
    obtain ⟨inner, lexical⟩ := admits.inner
    refine ⟨(conforms d inside).form.lexical (fun e deeper => ?_) inner lexical,
      (conforms d inside).place⟩
    have listed : e ∈ d.listing := mem_listing_iff.2 (Or.inr ⟨e, deeper, e.self_mem_listing⟩)
    exact (conforms e (mem_listing_trans listed inside)).form

end LineTree.Token
