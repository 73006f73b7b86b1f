import LineTree.Proofs.Siblings
import LineTree.Token.Literal

/-!
# Decoded literals

The text of a quoted literal, read off the tokens in it: each escape stands for a character or for
nothing, and all between them stands for itself. Decoding reads the characters of the literal again,
without the tree; it comes to the same text, and the quote that it stops at is the last character.
Main statements: `decodeUntil_laid`, `Token.ofLine_decoded`.
-/
namespace LineTree

/-- What an escape stands for. A backslash alone stands for nothing. -/
def escaped : Text → Text
  | [_, c] => [unescape c]
  | _ => []

/-- The characters of a literal from byte `offset` up to byte `last`, with what they stand for in the
place of these escapes. -/
def replacedFrom (origin : Nat) (literal : Text) (offset last : Nat) : List Token → Text
  | [] => literal.gap origin offset last
  | e :: later =>
    literal.gap origin offset e.start ++ escaped e.literal ++
      replacedFrom origin literal e.stop last later

/-- The text between the quotes, with what they stand for in the place of the escapes. A literal
that is not terminated has no second quote. -/
def Token.unquoted (t : Token) (terminated : Bool) : Text :=
  replacedFrom t.start t.literal (t.start + 1) (if terminated then t.stop - 1 else t.stop) t.children

/-- Decodes a text, and tells what it has not looked at: the quote that has ended it and all behind
that. -/
def decodeUntil (mark : Char) : Text → Text × Text
  | [] => ([], [])
  | c :: rest =>
    if c = '\\' then
      match rest with
      | [] => ([], [])
      | e :: rest => (unescape e :: (decodeUntil mark rest).1, (decodeUntil mark rest).2)
    else if c = mark then ([], c :: rest)
    else (c :: (decodeUntil mark rest).1, (decodeUntil mark rest).2)

/-- The decoded text is that of `decodeBody`. -/
theorem decodeUntil_fst (mark : Char) (t : Text) : (decodeUntil mark t).1 = decodeBody mark t := by
  fun_induction decodeUntil mark t with
  | case1 => rfl
  | case2 => rfl
  | case3 e rest ih => exact congrArg (unescape e :: ·) ih
  | case4 rest plain =>
    rw [decodeBody.eq_def]
    simp only [if_neg plain, if_pos]
  | case5 c rest plain inner ih =>
    rw [decodeBody.eq_def]
    simp only [if_neg plain, if_neg inner, ih]

section Laid

variable {q : Quote} {c : Char} {t : Text}

theorem decodeUntil_escape (mark : Char) (e : Char) (t : Text) : decodeUntil mark ('\\' :: e :: t) =
    (unescape e :: (decodeUntil mark t).1, (decodeUntil mark t).2) := rfl

theorem decodeUntil_mark (q : Quote) (t : Text) :
    decodeUntil q.mark (q.mark :: t) = ([], q.mark :: t) := by
  have plain : q.mark ≠ '\\' := by cases q <;> decide
  rw [decodeUntil.eq_def]
  simp only [if_neg plain, if_pos]

theorem decodeUntil_plain (plain : q.IsPlain c) (t : Text) : decodeUntil q.mark (c :: t) =
    (c :: (decodeUntil q.mark t).1, (decodeUntil q.mark t).2) := by
  rw [decodeUntil.eq_def]
  simp only [if_neg plain.1, if_neg plain.2]

/-- An escape is a backslash with a character, or a backslash alone at the end `last` of a literal
that is not terminated. -/
def IsEscape (last : Nat) (terminated : Bool) (e : Token) : Prop :=
  (∃ c, e.literal = ['\\', c]) ∨ e.literal = ['\\'] ∧ e.stop = last ∧ terminated = false

/-- Decoding plain characters and escapes replaces the escapes and goes on to the closing quote, if
there is one. -/
theorem decodeUntil_laid {offset last : Nat} {body : Text} {escapes : List Token}
    {terminated : Bool} (laid : Laid q.IsPlain offset body escapes)
    (total : offset + Text.byteLength body = last)
    (forms : ∀ e ∈ escapes, IsEscape last terminated e) :
    let closing := if terminated then [q.mark] else []
    ∃ content, decodeUntil q.mark (body ++ closing) = (content, closing) ∧
      ∀ origin before gap, offset = origin + Text.byteLength before + Text.byteLength gap →
        replacedFrom origin (before ++ gap ++ body ++ closing) (origin + Text.byteLength before) last
          escapes = gap ++ content := by
  intro closing
  induction laid with
  | nil offset =>
    refine ⟨[], ?_, fun origin before gap here => ?_⟩
    · cases terminated with
      | false => rfl
      | true => exact decodeUntil_mark q []
    · have reach : last = origin + Text.byteLength before + Text.byteLength gap := by
        rw [← total, here, Text.byteLength_nil, Nat.add_zero]
      rw [replacedFrom, reach, List.append_nil, Text.gap_append, List.append_nil]
  | @char offset c text escapes plain _ ih =>
    obtain ⟨content, decoded, replaced⟩ := ih (by simp only [← total, Text.byteLength_cons]; omega) forms
    refine ⟨c :: content, ?_, fun origin before gap here => ?_⟩
    · rw [List.cons_append, decodeUntil_plain plain, decoded]
    · have longer := replaced origin before (gap ++ [c]) (by
        simp only [here, Text.byteLength_append, Text.byteLength_cons, Text.byteLength_nil]
        omega)
      simpa using longer
  | @token offset e text escapes placed _ ih =>
    have stop_eq : e.stop = offset + Text.byteLength e.literal := by rw [Token.stop, placed]
    obtain ⟨content, decoded, replaced⟩ := ih
      (by rw [← total, stop_eq, Text.byteLength_append, Nat.add_assoc])
      fun x member => forms x (by simp [member])
    refine ⟨escaped e.literal ++ content, ?_, fun origin before gap here => ?_⟩
    · rcases forms e (by simp) with ⟨c, literal⟩ | ⟨literal, final, unterminated⟩
      · have front : e.literal ++ text ++ closing = '\\' :: c :: (text ++ closing) := by
          rw [literal]
          rfl
        rw [front, decodeUntil_escape, decoded, literal]
        rfl
      · -- Nothing follows a backslash alone.
        have rest : text = [] := (Text.byteLength_eq_zero_iff text).1 (by
          rw [Text.byteLength_append, ← Nat.add_assoc, ← stop_eq, final] at total
          omega)
        have closing_eq : closing = [] := by simp [closing, unterminated]
        rw [rest, closing_eq] at decoded
        rw [literal, rest, closing_eq, (Prod.mk.inj decoded).1.symm]
        rfl
    · have later := replaced origin (before ++ gap ++ e.literal) [] (by
        simp only [stop_eq, here, Text.byteLength_append, Text.byteLength_nil]
        omega)
      have stop_eq : e.stop = origin + Text.byteLength (before ++ gap ++ e.literal) := by
        simp only [stop_eq, here, Text.byteLength_append]
        omega
      have split : before ++ gap ++ (e.literal ++ text) ++ closing =
          before ++ gap ++ e.literal ++ [] ++ text ++ closing := by simp
      have front : (before ++ gap ++ (e.literal ++ text) ++ closing).gap origin
          (origin + Text.byteLength before) e.start = gap := by
        have whole : before ++ gap ++ (e.literal ++ text) ++ closing =
            before ++ gap ++ (e.literal ++ text ++ closing) := by simp
        rw [placed, here, whole, Text.gap_append]
      rw [replacedFrom, front, stop_eq, split, later]
      simp

end Laid

namespace Token

variable {line : Nat} {text : Text} {p t : Token} {earlier later : List Token} {q : Quote}
  {terminated : Bool}

theorem Conforms.stop_le (h : t.Conforms line text) : t.stop ≤ Text.byteLength text := by
  obtain ⟨before, after, place, start, -⟩ := h.place
  rw [stop, place, Text.byteLength_append, Text.byteLength_append, start]
  omega

/-- A framed token that has not ended reaches the end of the line. -/
theorem HasForm.stop_of_not_ended (h : t.HasForm text) {f : Frame} (framed : t.kind.frame? = some f)
    (unended : ¬ t.Ended) : t.stop = Text.byteLength text := by
  obtain ⟨body, laid, literal⟩ := h.framed f framed
  rcases literal with ⟨last, complete, same⟩ | ⟨-, stop⟩
  · exact (unended (Or.inl ⟨f, last, body, framed, complete, laid, same⟩)).elim
  · exact stop

/-- A framed token has ended exactly if another token follows in its row. -/
theorem Grammar.ended_iff_followed (h : p.Grammar line text) (filled : p.kind.isFilled)
    (row : p.children = earlier ++ t :: later) {f : Frame} (framed : t.kind.frame? = some f) :
    t.Ended ↔ later ≠ [] := by
  constructor
  · intro ended
    obtain ⟨next, more, rfl⟩ := h.exists_next filled row ended
    exact List.cons_ne_nil next more
  · intro followed
    by_contra unended
    obtain ⟨next, more, rfl⟩ := List.exists_cons_of_ne_nil followed
    have own := (h.child (c := t) (by simp [row])).own
    have other := (h.child (c := next) (by simp [row])).own
    have begins : next.start = t.stop := h.start_of_next filled row
    have reach : t.stop = Text.byteLength text := own.form.stop_of_not_ended framed unended
    have bound := other.stop_le
    have empty : Text.byteLength next.literal = 0 := by
      rw [stop] at bound
      omega
    exact (h.follows_next filled row).solid unended ((Text.byteLength_eq_zero_iff _).1 empty)

/-- Behind its opening quote a literal holds its escapes between plain characters, and its closing
quote if it is terminated. -/
theorem HasForm.quoted_body (h : t.HasForm text) (kind : t.kind = .quoted q)
    (ended : terminated = true ↔ t.Ended) : ∃ body,
      Laid q.IsPlain (t.start + 1) body t.children ∧
      t.literal = q.mark :: (body ++ if terminated then [q.mark] else []) ∧
      (t.start + 1 + Text.byteLength body = if terminated then t.stop - 1 else t.stop) ∧
      (terminated = false → t.stop = Text.byteLength text) := by
  have framed := congrArg Kind.frame? kind
  cases terminated with
  | true =>
    rcases ended.1 rfl with ⟨f, last, body, framed', complete, laid, literal⟩ | ⟨number, -⟩
    · obtain rfl := Option.some.inj (framed.symm.trans framed')
      obtain rfl : q.mark = last := Option.some.inj complete
      rw [q.byteLength_mark] at laid
      refine ⟨body, laid, by simpa using literal, ?_, nofun⟩
      rw [if_pos rfl, stop, literal, Text.byteLength_append, Text.byteLength_append,
        q.byteLength_mark]
      omega
    · simp [kind] at number
  | false =>
    have unended : ¬ t.Ended := fun same => by cases ended.2 same
    obtain ⟨body, laid, literal⟩ := h.framed _ framed
    rcases literal with ⟨last, complete, same⟩ | ⟨literal, reach⟩
    · exact (unended (Or.inl ⟨_, last, body, framed, complete, laid, same⟩)).elim
    · rw [q.byteLength_mark] at laid
      refine ⟨body, laid, by simpa using literal, ?_, fun _ => reach⟩
      rw [if_neg Bool.false_ne_true, stop, literal, Text.byteLength_append, q.byteLength_mark]
      omega

/-- Only at the end of a literal without a closing quote stands a backslash alone. -/
theorem Grammar.isEscape (h : t.Grammar line text) (kind : t.kind = .quoted q)
    (ended : terminated = true ↔ t.Ended) {e : Token} (child : e ∈ t.children) :
    IsEscape (if terminated then t.stop - 1 else t.stop) terminated e := by
  have own := (h.child child).own
  obtain ⟨before, admits⟩ := h.own.form.admits.mem child
  rw [kind] at admits
  have escape : e.kind = .escape := admits
  have spelled := own.form.spelled (congrArg Kind.frame? escape)
  rw [escape] at spelled
  rcases spelled with alone | whole
  · have final : e.stop = Text.byteLength text := own.form.endsLine (by rw [escape]; exact alone)
    obtain ⟨body, laid, literal, total, reach⟩ := h.own.form.quoted_body kind ended
    cases terminated with
    | true =>
      have inside := (laid.bounds child).2
      have bound := h.own.stop_le
      have longer : t.start + 1 ≤ t.stop - 1 := by
        rw [if_pos rfl] at total
        omega
      rw [if_pos rfl] at total
      omega
    | false => exact Or.inr ⟨alone, final.trans (reach rfl).symm, rfl⟩
  · exact Or.inl whole

/-- Decoding a literal that stands in a line reads it up to its closing quote or to its end. -/
theorem Grammar.decodeUntil_eq (h : t.Grammar line text) (kind : t.kind = .quoted q)
    (ended : terminated = true ↔ t.Ended) : ∃ behind, t.literal = q.mark :: behind ∧
      decodeUntil q.mark behind = (t.unquoted terminated, if terminated then [q.mark] else []) := by
  obtain ⟨body, laid, literal, total, -⟩ := h.own.form.quoted_body kind ended
  obtain ⟨content, decoded, replaced⟩ :=
    decodeUntil_laid laid total fun e child => h.isEscape kind ended child
  have same : t.unquoted terminated = content := by
    have whole := replaced t.start [q.mark] [] (by rw [q.byteLength_mark]; rfl)
    rw [q.byteLength_mark] at whole
    rw [unquoted, literal]
    exact whole
  exact ⟨_, literal, by rw [decoded, same]⟩

/-- A literal stands in a group or in the line. -/
theorem Grammar.filled_of_quoted (h : p.Grammar line text) (child : t ∈ p.children)
    (kind : t.kind = .quoted q) : p.kind.isFilled := by
  obtain ⟨before, admits⟩ := h.own.form.admits.mem child
  exact admits.filled (by simp [kind]) (by simp [kind])

/-- The value of a quoted literal is the text between its quotes, with each escape replaced by what
it stands for. A literal has its closing quote exactly if whitespace follows in its row; decoding
goes on to that quote or to the end of the literal, and never stops in front of either. -/
theorem ofLine_decoded (line : Nat) (text : Text) {t : Token} {q : Quote}
    (member : t ∈ (Token.ofLine line text).descendants) (kind : t.kind = .quoted q) :
    (∃ p ∈ (Token.ofLine line text).descendants, t ∈ p.children) ∧
    ∀ p ∈ (Token.ofLine line text).descendants, ∀ earlier later,
      p.children = earlier ++ t :: later →
      let terminated := !later.isEmpty
      (terminated = true ↔ t.Ended) ∧ (∀ next ∈ later.head?, next.kind = .whitespace) ∧
      t.decoded? = some (.string (t.unquoted terminated)) ∧
      ∃ behind, t.literal = q.mark :: behind ∧
        decodeUntil q.mark behind = (t.unquoted terminated, if terminated then [q.mark] else []) := by
  refine ⟨?_, ?_⟩
  · rcases mem_listing_iff.1 (mem_descendants_iff.1 member) with rfl | ⟨c, child, inside⟩
    · rw [kind_ofLine] at kind
      cases kind
    · obtain ⟨p, listed, parent⟩ := exists_parent child inside
      exact ⟨p, mem_descendants_iff.2 listed, parent⟩
  · intro p outer earlier later row terminated
    have around : p.Grammar line text :=
      (grammar_ofLine line text).inside (mem_descendants_iff.1 outer)
    have filled := around.filled_of_quoted (t := t) (by simp [row]) kind
    have ended : terminated = true ↔ t.Ended := by
      rw [around.ended_iff_followed filled row (congrArg Kind.frame? kind)]
      simp [terminated]
    obtain ⟨behind, literal, decoded⟩ :=
      (around.child (c := t) (by simp [row])).decodeUntil_eq kind ended
    refine ⟨ended, fun next head => ?_, ?_, behind, literal, decoded⟩
    · obtain ⟨more, rfl⟩ := List.head?_eq_some_iff.1 head
      exact (around.follows_next filled row).gap (ended.1 rfl)
    · have body : decodeBody q.mark behind = t.unquoted terminated := by
        rw [← decodeUntil_fst, decoded]
      rw [decoded?, kind]
      simp only [literal, decodeQuoted, if_pos, body]

/-- The literal of `"a\"\n\`, in which a backslash is left alone, has the value `a"` and a newline. -/
theorem ofLine_decoded_open :
    let escape (start : Nat) (literal : String) : Token := ⟨0, start, literal.toList, .escape, [], none⟩
    let t : Token := ⟨0, 0, "\"a\\\"\\n\\".toList, .quoted .double,
      [escape 2 "\\\"", escape 4 "\\n", escape 6 "\\"], none⟩
    t ∈ (Token.ofLine 0 t.literal).descendants ∧ t.decoded? = some (.string ['a', '"', '\n']) := by
  intro escape t
  have member : t ∈ (Token.ofLine 0 t.literal).descendants :=
    mem_descendants_iff.2 (by decide +kernel)
  have root : Token.ofLine 0 t.literal ∈ (Token.ofLine 0 t.literal).descendants :=
    mem_descendants_iff.2 (self_mem_listing _)
  have law := (ofLine_decoded 0 _ member rfl).2 _ root [⟨0, 0, [], .indent, [], none⟩] []
    (by decide +kernel)
  exact ⟨member, law.2.2.1⟩

end Token
end LineTree
