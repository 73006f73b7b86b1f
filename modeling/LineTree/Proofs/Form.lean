import LineTree.Proofs.Effect
import LineTree.Proofs.Placement

/-!
# The form of tokens

The grammar of tokens, apart from any scan: which texts a kind is spelled by, which children a
token may have, and how its literal is made of both. A literal is the longest one if no more of
the line can be added to it. Main statements: `Kind.longest_of_endBefore`, `Token.HasForm.laid`.
-/
namespace LineTree

/-- The symbols that begin tokens of a kind of their own. -/
def symbolChars : List Char :=
  operatorChars ++ ['/', '.', '^', ':', ',', '=', '#', '"', '\'', '[', '(', '{']

/-- A character that begins no token: not blank, no digit, no name character, no known symbol. -/
def IsStray (c : Char) : Prop :=
  isBlank c = false ∧ c.isDigit = false ∧ isNameStart c = false ∧ c ∉ symbolChars

/-- A character of a quoted literal that stands for itself. -/
def Quote.IsPlain (q : Quote) (c : Char) : Prop := c ≠ '\\' ∧ c ≠ q.mark

/-- What may stand behind the opening mark: a backslash takes the next character with it, and
another mark stands only at the end. -/
def Quote.Tail (q : Quote) : Text → Prop
  | [] => True
  | [_] => True
  | c :: d :: rest => if c = '\\' then q.Tail rest else c ≠ q.mark ∧ q.Tail (d :: rest)

namespace Kind

/-- The kinds of the tokens that a line and a group are made of. -/
def isItem : Kind → Bool
  | line | indent | escape | commentContent | semantic _ => false
  | _ => true

/-- The texts of the tokens of a kind. Lines and groups are spelled by their children. -/
def Spells : Kind → Text → Prop
  | indent, t => ∀ c ∈ t, c = '\t'
  | whitespace, t => ∀ c ∈ t, isBlank c
  | identifier, t | label, t =>
    ∃ first rest, t = first :: rest ∧ isNameStart first ∧ ∀ c ∈ rest, isNameChar c
  | command, t => ∃ rest, t = '#' :: rest ∧ ∀ c ∈ rest, c.isAlpha
  | number, t => ∃ first rest unit, t = first :: rest ++ unit ∧ first.isDigit ∧
      (∀ c ∈ rest, isNumberChar c) ∧ (unit = [] ∨ ∃ u, isUnitSuffix u ∧ unit = [u])
  | position, t => ∃ first left right, t = first :: left ++ ',' :: right ∧ first.isDigit ∧
      (∀ c ∈ left, isNumberChar c) ∧ ∀ c ∈ right, isNumberChar c
  | quoted q, t => ∃ tail, t = q.mark :: tail ∧ q.Tail tail
  | escape, t => t = ['\\'] ∨ ∃ c, t = ['\\', c]
  | comment, t => ∃ content, t = '/' :: '/' :: content ∧ content.head? ≠ some '/'
  | docComment, t => ∃ content, t = '/' :: '/' :: '/' :: content
  | commentContent, t => t ≠ []
  | slash, t => t = ['/']
  | methodCall, t => t = [':']
  | labelMark, t => t = [':', ':']
  | dot, t => t = ['.']
  | comma, t => t = [',']
  | lambdaHat, t => t = ['^']
  | assignment, t => t = ['=']
  | operator, t => ∃ c ∈ operatorChars, t = [c]
  | unresolved, t => ∃ c, IsStray c ∧ t = [c]
  | line, _ | brackets _, _ | semantic _, _ => False

/-- The kinds that a longer text at the same place may have. -/
inductive TurnsInto : Kind → Kind → Prop
  | same (k : Kind) : TurnsInto k k
  | position : TurnsInto number position
  | comment : TurnsInto slash comment
  | docComment : TurnsInto comment docComment
  | labelMark : TurnsInto methodCall labelMark

/-- No text that begins with the literal and goes on with what follows is a token as well. -/
def Longest (k : Kind) (literal after : Text) : Prop :=
  ∀ k' more rest, k.TurnsInto k' → after = more ++ rest → more ≠ [] → ¬ k'.Spells (literal ++ more)

/-- The kind of token may get the child behind its earlier children. -/
def Admits (parent : Kind) (earlier : List Token) (child : Token) : Prop :=
  match parent with
  | line => if earlier = [] then child.kind = indent else child.kind.isItem
  | brackets b => (if earlier = [] then child.kind = whitespace else child.kind.isItem) ∧
      (child.kind = unresolved → child.literal ≠ [b.closer])
  | quoted _ => child.kind = escape
  | comment => earlier = [] ∧ child.kind = commentContent ∧ child.literal.head? ≠ some '/'
  | docComment => earlier = [] ∧ child.kind = commentContent
  | _ => False

/-- Lines and the kinds of later analyses are never inside another token. -/
theorem Admits.inner {parent : Kind} {earlier : List Token} {child : Token}
    (h : parent.Admits earlier child) : child.kind ≠ line ∧ child.kind.isSemantic = false := by
  have items : child.kind.isItem → child.kind ≠ line ∧ child.kind.isSemantic = false := by
    cases child.kind <;> simp [isItem, isSemantic]
  cases parent with
  | line =>
    simp only [Admits] at h
    split at h
    · simp [h, isSemantic]
    · exact items h
  | brackets b =>
    have first := h.1
    split at first
    · simp [first, isSemantic]
    · exact items first
  | quoted q => simp [show child.kind = escape from h, isSemantic]
  | comment => simp [h.2.1, isSemantic]
  | docComment => simp [h.2, isSemantic]
  | _ => exact h.elim

/-- An indent is the first child of a line. -/
theorem Admits.line_of_indent {parent : Kind} {earlier : List Token} {child : Token}
    (h : parent.Admits earlier child) (kind : child.kind = indent) :
    parent = line ∧ earlier = [] := by
  cases parent with
  | line =>
    simp only [Admits, kind] at h
    split at h
    · next first => exact ⟨rfl, first⟩
    · cases h
  | brackets b =>
    have first := h.1
    simp only [kind] at first
    split at first <;> cases first
  | quoted q => simp [show child.kind = escape from h] at kind
  | comment => simp [h.2.1] at kind
  | docComment => simp [h.2] at kind
  | _ => exact h.elim

/-- Comments of both sorts. -/
def isComment : Kind → Bool
  | comment | docComment => true
  | _ => false

theorem isComment_iff {k : Kind} : k.isComment ↔ k = comment ∨ k = docComment := by
  cases k <;> simp [isComment]

/-- Only comments hold the content of comments. -/
theorem Admits.comment_of_content {parent : Kind} {earlier : List Token} {child : Token}
    (h : parent.Admits earlier child) (content : child.kind = commentContent) :
    parent.isComment := by
  cases parent with
  | line =>
    simp only [Admits, content] at h
    split at h <;> cases h
  | brackets b =>
    have first := h.1
    simp only [content] at first
    split at first <;> cases first
  | quoted q => cases content.symm.trans h
  | comment | docComment => rfl
  | _ => exact h.elim

/-- Each of the children may stand behind those in front of it. -/
def AdmitsAll (parent : Kind) (children : List Token) : Prop :=
  ∀ earlier child later, children = earlier ++ child :: later → parent.Admits earlier child

theorem admitsAll_nil (parent : Kind) : parent.AdmitsAll [] := by
  intro earlier child later same
  simp at same

theorem AdmitsAll.append {parent : Kind} {children : List Token} {child : Token}
    (h : parent.AdmitsAll children) (next : parent.Admits children child) :
    parent.AdmitsAll (children ++ [child]) := by
  intro earlier other later same
  rcases List.append_eq_append_iff.1 same with ⟨gap, rfl, rest⟩ | ⟨gap, rfl, rest⟩
  · cases gap with
    | nil =>
      obtain ⟨rfl, -⟩ : child = other ∧ [] = later := by simpa using rest
      simpa using next
    | cons x gap =>
      exact absurd rest (by simp)
  · cases gap with
    | nil =>
      obtain ⟨rfl, -⟩ : other = child ∧ later = [] := by simpa using rest
      simpa using next
    | cons x gap =>
      obtain ⟨rfl, -⟩ : other = x ∧ later = gap ++ [child] := by simpa using rest
      exact h earlier other gap (by simp)

theorem AdmitsAll.mem {parent : Kind} {children : List Token} (h : parent.AdmitsAll children)
    {child : Token} (member : child ∈ children) : ∃ earlier, parent.Admits earlier child := by
  obtain ⟨earlier, later, same⟩ := List.append_of_mem member
  exact ⟨earlier, h earlier child later same⟩

end Kind

/-- What surrounds the children of a token, and the characters that may stand between them. -/
structure Frame where
  front : Text
  free : Char → Prop := fun _ => False
  /-- The last character of a token that is complete in front of the end of its line. -/
  last? : Option Char := none

/-- The frame of a kind of token that may have children. -/
def Kind.frame? : Kind → Option Frame
  | line => some { front := [] }
  | brackets b => some { front := [b.opener], last? := some b.closer }
  | quoted q => some { front := [q.mark], free := q.IsPlain, last? := some q.mark }
  | comment => some { front := ['/', '/'] }
  | docComment => some { front := ['/', '/', '/'] }
  | _ => none

/-- Lines and groups are never without children. -/
def Kind.isFilled : Kind → Bool
  | line | brackets _ => true
  | _ => false

theorem Kind.isFilled_iff {k : Kind} : k.isFilled ↔ k = .line ∨ ∃ b, k = .brackets b := by
  cases k <;> simp [isFilled]

/-- Only groups and the line hold tokens other than escapes and the content of comments. -/
theorem Kind.Admits.filled {parent : Kind} {earlier : List Token} {child : Token}
    (h : parent.Admits earlier child) (escape : child.kind ≠ .escape)
    (content : child.kind ≠ .commentContent) : parent.isFilled := by
  cases parent with
  | line | brackets _ => rfl
  | quoted q => exact (escape h).elim
  | comment => exact (content h.2.1).elim
  | docComment => exact (content h.2).elim
  | _ => exact h.elim

theorem Kind.bracket?_of_not_isFilled {k : Kind} (h : k.isFilled = false) : k.bracket? = none := by
  cases k with
  | brackets b => cases h
  | _ => rfl

/-- A token without a frame that only the end of the line can end. -/
def Kind.EndsLine : Kind → Text → Prop
  | escape, t => t = ['\\']
  | commentContent, _ => True
  | _, _ => False

/-- The children and the literal of the token have the form of its kind. A token may lack the end
of its frame only at the end of the line `text`. -/
structure Token.HasForm (text : Text) (t : Token) : Prop where
  admits : t.kind.AdmitsAll t.children
  filled : t.kind.isFilled → t.children ≠ []
  framed : ∀ f, t.kind.frame? = some f → ∃ body,
    Laid f.free (t.start + Text.byteLength f.front) body t.children ∧
      ((∃ last, f.last? = some last ∧ t.literal = f.front ++ body ++ [last]) ∨
        t.literal = f.front ++ body ∧ t.stop = Text.byteLength text)
  spelled : t.kind.frame? = none → t.kind.Spells t.literal
  endsLine : t.kind.EndsLine t.literal → t.stop = Text.byteLength text

/-- The token stands at its place in the line, has the form of its kind, and cannot be made
longer by what follows it. -/
structure Token.Conforms (line : Nat) (text : Text) (t : Token) : Prop where
  line_eq : t.line = line
  value_eq : t.value = none
  place : ∃ before after, text = before ++ t.literal ++ after ∧
    Text.byteLength before = t.start ∧ t.kind.Longest t.literal after
  form : t.HasForm text

namespace Kind

theorem longest_nil (k : Kind) (literal : Text) : k.Longest literal [] := by
  intro k' more rest _ same nonempty _
  simp_all

theorem longest_of_next {k : Kind} {literal rest : Text} {c : Char}
    (refused : ∀ k' more, k.TurnsInto k' → ¬ k'.Spells (literal ++ c :: more)) :
    k.Longest literal (c :: rest) := by
  intro k' more tail turns same nonempty spelled
  obtain ⟨next, more, rfl⟩ := List.exists_cons_of_ne_nil nonempty
  obtain ⟨rfl, -⟩ : c = next ∧ rest = more ++ tail := by simpa using same
  exact refused k' more turns spelled

/-- A token without a longer form of its kind is the longest one if its kind never changes. -/
theorem longest_of_refused {k : Kind} {literal after : Text}
    (stays : ∀ k', k.TurnsInto k' → k' = k)
    (refused : ∀ more, more ≠ [] → ¬ k.Spells (literal ++ more)) : k.Longest literal after := by
  intro k' more rest turns _ nonempty spelled
  rw [stays k' turns] at spelled
  exact refused more nonempty spelled

theorem isNumberChar_of_isDigit {c : Char} (h : c.isDigit) : isNumberChar c := by
  simp [isNumberChar, h]

theorem not_isNumberChar_of_isUnitSuffix {c : Char} (h : isUnitSuffix c) :
    isNumberChar c = false := by
  simp only [isUnitSuffix, Bool.or_eq_true, beq_iff_eq] at h
  rcases h with ((rfl | rfl) | rfl) | rfl <;> decide

/-- The digits of a number and its unit, if it has one. -/
theorem Spells.number_parts {t : Text} (h : number.Spells t) :
    ∃ digits unit, t = digits ++ unit ∧ (∃ c ∈ digits.head?, c.isDigit) ∧
      (∀ c ∈ digits, isNumberChar c) ∧ (unit = [] ∨ ∃ u, isUnitSuffix u ∧ unit = [u]) := by
  obtain ⟨first, rest, unit, same, digit, chars, ending⟩ := h
  refine ⟨first :: rest, unit, same, ⟨first, rfl, digit⟩, fun c member => ?_, ending⟩
  rcases List.mem_cons.1 member with rfl | later
  · exact isNumberChar_of_isDigit digit
  · exact chars c later

theorem Spells.number_chars {t : Text} (h : number.Spells t) {c : Char} (member : c ∈ t) :
    isNumberChar c ∨ isUnitSuffix c := by
  obtain ⟨first, rest, unit, rfl, digit, chars, ending⟩ := h
  rcases List.mem_append.1 member with inside | last
  · rcases List.mem_cons.1 inside with rfl | later
    · exact Or.inl (isNumberChar_of_isDigit digit)
    · exact Or.inl (chars c later)
  · rcases ending with rfl | ⟨u, suffix, rfl⟩
    · cases last
    · obtain rfl := List.mem_singleton.1 last
      exact Or.inr suffix

/-- Only the last character of a number can be a unit. -/
theorem Spells.number_init {a b : Text} (h : number.Spells (a ++ b)) (nonempty : b ≠ []) {c : Char}
    (member : c ∈ a) : isNumberChar c := by
  obtain ⟨first, rest, unit, same, digit, chars, ending⟩ := h
  have inner : c ∈ first :: rest := by
    rcases ending with rfl | ⟨u, suffix, rfl⟩
    · rw [List.append_nil] at same
      exact same ▸ List.mem_append_left b member
    · rw [← List.dropLast_concat_getLast nonempty, ← List.append_assoc] at same
      have split := (List.append_inj' same rfl).1
      exact split ▸ List.mem_append_left _ member
  rcases List.mem_cons.1 inner with rfl | later
  · exact isNumberChar_of_isDigit digit
  · exact chars c later

theorem Spells.position_chars {t : Text} (h : position.Spells t) {c : Char} (member : c ∈ t) :
    isNumberChar c ∨ c = ',' := by
  obtain ⟨first, left, right, rfl, digit, before, behind⟩ := h
  rcases List.mem_append.1 member with inside | last
  · rcases List.mem_cons.1 inside with rfl | later
    · exact Or.inl (isNumberChar_of_isDigit digit)
    · exact Or.inl (before c later)
  · rcases List.mem_cons.1 last with rfl | later
    · exact Or.inr rfl
    · exact Or.inl (behind c later)

theorem Spells.position_count {t : Text} (h : position.Spells t) : t.count ',' = 1 := by
  obtain ⟨first, left, right, rfl, digit, before, behind⟩ := h
  have free : ∀ l : Text, (∀ c ∈ l, isNumberChar c) → l.count ',' = 0 := by
    intro l chars
    rw [List.count_eq_zero]
    intro member
    exact absurd (chars ',' member) (by decide)
  have head : (first :: left).count ',' = 0 := free _ (by
    intro c member
    rcases List.mem_cons.1 member with rfl | later
    · exact isNumberChar_of_isDigit digit
    · exact before c later)
  rw [List.count_append, head, List.count_cons_self, free right behind]

/-- A character that a kind does not take in ends its token where it is longest. -/
theorem longest_of_endBefore {k : Kind} {literal rest : Text} {c : Char} (spelled : k.Spells literal)
    (ends : k.effect c = .endBefore) (unitless : k = number → ∀ x ∈ literal, isNumberChar x) :
    k.Longest literal (c :: rest) := by
  apply longest_of_next
  intro k' more turns longer
  have here : c ∈ literal ++ c :: more := by simp
  cases turns with
  | position =>
    obtain ⟨-, comma, digit⟩ := effect_number_endBefore ends
    rcases longer.position_chars here with number | same
    · simp [digit] at number
    · exact comma same
  | comment =>
    obtain ⟨content, same, -⟩ := longer
    rw [show literal = ['/'] from spelled] at same
    exact effect_slash_endBefore ends (List.cons.inj (List.cons.inj same).2).1
  | docComment =>
    exact (effect_endBefore ends).2.2.1 rfl
  | labelMark =>
    rw [show literal = [':'] from spelled] at longer
    exact effect_methodCall_endBefore ends (List.cons.inj (List.cons.inj longer).2).1
  | same k =>
    cases k with
    | line | brackets _ | semantic _ => exact spelled
    | indent =>
      have tab := longer c here
      simp [effect, Effect.extendIf, tab] at ends
    | whitespace =>
      have blank := longer c here
      simp [effect, Effect.extendIf, blank] at ends
    | identifier | label =>
      obtain ⟨first, rest, rfl, -, -⟩ := spelled
      obtain ⟨first', rest', same, -, chars⟩ := longer
      have name := chars c ((List.cons.inj same).2 ▸ by simp)
      simp [effect, Effect.extendIf, name] at ends
    | command =>
      obtain ⟨rest, rfl, -⟩ := spelled
      obtain ⟨rest', same, chars⟩ := longer
      have letter := chars c ((List.cons.inj same).2 ▸ by simp)
      simp [effect, Effect.extendIf, letter] at ends
    | number =>
      obtain ⟨suffix, -, digit⟩ := effect_number_endBefore ends
      rcases longer.number_chars here with number | unit
      · simp [digit] at number
      · simp [suffix] at unit
    | position =>
      have digit : isNumberChar c = false := by simpa [effect, Effect.extendIf] using ends
      have count := longer.position_count
      rw [List.count_append, spelled.position_count, List.count_cons] at count
      rcases longer.position_chars here with number | rfl
      · simp [digit] at number
      · simp at count
    | quoted q => exact (effect_endBefore ends).1 q rfl
    | comment => exact (effect_endBefore ends).2.2.1 rfl
    | escape | docComment | commentContent => cases ends
    | slash | methodCall | labelMark | dot | comma | lambdaHat | assignment =>
      rw [Spells] at spelled longer
      simp [spelled] at longer
    | operator | unresolved =>
      obtain ⟨x, -, rfl⟩ := spelled
      obtain ⟨y, -, same⟩ := longer
      simp at same

/-- A number ends behind its unit. -/
theorem longest_number_unit {digits after : Text} {u : Char} (suffix : isUnitSuffix u) :
    number.Longest (digits ++ [u]) after := by
  intro k' more rest turns _ nonempty longer
  have foreign := not_isNumberChar_of_isUnitSuffix suffix
  have member : u ∈ digits ++ [u] := by simp
  cases turns with
  | same =>
    have digit := longer.number_init nonempty member
    simp [foreign] at digit
  | position =>
    rcases longer.position_chars (List.mem_append_left more member) with digit | rfl
    · simp [foreign] at digit
    · revert suffix
      decide

theorem longest_escape {c : Char} {after : Text} : escape.Longest ['\\', c] after := by
  apply longest_of_refused
  · rintro k' ⟨⟩
    rfl
  · rintro (_ | ⟨x, more⟩) nonempty longer
    · exact nonempty rfl
    · rcases longer with same | ⟨y, same⟩ <;> simp at same

end Kind

theorem Quote.byteLength_mark (q : Quote) : Text.byteLength [q.mark] = 1 := by
  cases q <;> rfl

/-- Behind plain characters and whole escapes the mark is the last character. -/
theorem Quote.Tail.ends {q : Quote} {offset : Nat} {body more : Text} {escapes : List Token}
    (laid : Laid q.IsPlain offset body escapes)
    (whole : ∀ t ∈ escapes, ∃ c, t.literal = ['\\', c])
    (tail : q.Tail (body ++ q.mark :: more)) : more = [] := by
  induction laid with
  | nil =>
    cases more with
    | nil => rfl
    | cons d more =>
      rw [List.nil_append, Quote.Tail, if_neg (by cases q <;> decide)] at tail
      exact absurd rfl tail.1
  | @char offset c text escapes free _ ih =>
    apply ih whole
    cases text with
    | nil =>
      rw [List.cons_append, List.nil_append, Quote.Tail, if_neg free.1] at tail
      exact tail.2
    | cons d text =>
      rw [List.cons_append, List.cons_append, Quote.Tail, if_neg free.1] at tail
      exact tail.2
  | @token offset t text escapes _ _ ih =>
    obtain ⟨c, same⟩ := whole t (by simp)
    apply ih fun u member => whole u (by simp [member])
    simp only [same, List.cons_append, List.nil_append] at tail
    rwa [Quote.Tail, if_pos rfl] at tail

/-- A quoted literal ends behind its second mark. -/
theorem Kind.longest_quoted {q : Quote} {offset : Nat} {body after : Text} {escapes : List Token}
    (laid : Laid q.IsPlain offset body escapes)
    (whole : ∀ t ∈ escapes, ∃ c, t.literal = ['\\', c]) :
    (Kind.quoted q).Longest (q.mark :: body ++ [q.mark]) after := by
  apply Kind.longest_of_refused
  · rintro k' ⟨⟩
    rfl
  · rintro more nonempty ⟨tail, same, closed⟩
    obtain rfl : body ++ q.mark :: more = tail := by simpa using same
    exact nonempty (closed.ends laid whole)

namespace Kind

theorem frame?_of_admits {parent : Kind} {earlier : List Token} {child : Token}
    (h : parent.Admits earlier child) : ∃ f, parent.frame? = some f := by
  cases parent with
  | line | brackets _ | quoted _ | comment | docComment => exact ⟨_, rfl⟩
  | _ => exact h.elim

/-- Tokens without a frame have no children. -/
theorem AdmitsAll.eq_nil {parent : Kind} {children : List Token} (h : parent.AdmitsAll children)
    (frameless : parent.frame? = none) : children = [] := by
  cases children with
  | nil => rfl
  | cons child later =>
    obtain ⟨f, framed⟩ := frame?_of_admits (h [] child later rfl)
    rw [frameless] at framed
    cases framed

end Kind

/-- Whatever its kind, the children of a token are laid in its literal. -/
theorem Token.HasForm.laid {text : Text} {t : Token} (h : t.HasForm text) :
    Laid (fun _ => True) t.start t.literal t.children := by
  cases frame : t.kind.frame? with
  | none =>
    rw [h.admits.eq_nil frame]
    exact Laid.of_forall fun _ _ => trivial
  | some f =>
    obtain ⟨body, laid, literal⟩ := h.framed f frame
    have free : ∀ part, Laid (fun _ => True) t.start part [] := fun _ =>
      Laid.of_forall fun _ _ => trivial
    have opened := (free f.front).append (laid.mono fun _ _ => trivial)
    rcases literal with ⟨last, -, same⟩ | ⟨same, -⟩
    · rw [same]
      exact opened.append_char trivial
    · rw [same]
      exact opened

end LineTree
