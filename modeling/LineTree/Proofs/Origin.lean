import LineTree.Proofs.Lexeme

/-!
# How tokens begin

The first character of a token settles its kind up to what the characters behind it may still turn
it into: a number may become a position, a slash a comment, a colon a label mark. Tokens that begin
alike at one place can differ in that alone. Main statements: `Kind.eq_or_outgrown`,
`Token.HasForm.begunBy_eq`.
-/
namespace LineTree

variable {line : Nat} {text : Text} {c : Char}

/-- Visible ASCII characters are not blank. -/
theorem not_isBlank_of_ascii (above : 0x20 < c.toNat) (below : c.toNat < 0x7F) :
    isBlank c = false := by
  simp only [isBlank, Bool.or_eq_false_iff, Bool.and_eq_false_iff, decide_eq_false_iff_not,
    beq_eq_false_iff_ne]
  omega

theorem toNat_of_isDigit (h : c.isDigit) : 48 ≤ c.toNat ∧ c.toNat ≤ 57 :=
  have bounds := (Bool.and_eq_true _ _).mp h
  ⟨of_decide_eq_true bounds.1, of_decide_eq_true bounds.2⟩

theorem toNat_of_isNameStart (h : isNameStart c) :
    (65 ≤ c.toNat ∧ c.toNat ≤ 90) ∨ (97 ≤ c.toNat ∧ c.toNat ≤ 122) ∨
      c.toNat = 95 ∨ c.toNat = 36 := by
  have upper (h : c.isUpper) : 65 ≤ c.toNat ∧ c.toNat ≤ 90 := of_decide_eq_true h
  have lower (h : c.isLower) : 97 ≤ c.toNat ∧ c.toNat ≤ 122 :=
    have bounds := (Bool.and_eq_true _ _).mp h
    ⟨of_decide_eq_true bounds.1, of_decide_eq_true bounds.2⟩
  have letter (h : c.isAlpha) : c.isUpper ∨ c.isLower := (Bool.or_eq_true _ _).mp h
  simp only [isNameStart, Bool.or_eq_true, beq_iff_eq, or_assoc] at h
  rcases h with alpha | rfl | rfl
  · rcases letter alpha with own | own
    · exact Or.inl (upper own)
    · exact Or.inr (Or.inl (lower own))
  · exact Or.inr (Or.inr (Or.inl rfl))
  · exact Or.inr (Or.inr (Or.inr rfl))

namespace Kind

variable {previous : Kind}

theorem begunBy_blank (h : isBlank c) : previous.begunBy c = whitespace := by
  unfold begunBy
  rw [if_pos h]

theorem begunBy_digit (h : c.isDigit) : previous.begunBy c = number := by
  have range := toNat_of_isDigit h
  have visible : isBlank c = false := not_isBlank_of_ascii (by omega) (by omega)
  unfold begunBy
  rw [if_neg (Bool.eq_false_iff.1 visible), if_pos h]

theorem begunBy_name (h : isNameStart c) :
    previous.begunBy c = if previous = labelMark then label else identifier := by
  have code := toNat_of_isNameStart h
  have visible : isBlank c = false := not_isBlank_of_ascii (by omega) (by omega)
  have letter : c.isDigit = false := Bool.eq_false_iff.2 fun digit => by
    have range := toNat_of_isDigit digit
    omega
  unfold begunBy
  rw [if_neg (Bool.eq_false_iff.1 visible), if_neg (Bool.eq_false_iff.1 letter), if_pos h]

theorem begunBy_operator (h : c ∈ operatorChars) : previous.begunBy c = operator := by
  have plain : operatorChars.all fun x => !isBlank x && !x.isDigit && !isNameStart x := by decide
  simp only [List.all_eq_true, Bool.and_eq_true, Bool.not_eq_true'] at plain
  obtain ⟨⟨blank, digit⟩, name⟩ := plain c h
  unfold begunBy
  rw [if_neg (Bool.eq_false_iff.1 blank), if_neg (Bool.eq_false_iff.1 digit),
    if_neg (Bool.eq_false_iff.1 name), if_pos (List.contains_iff_mem.2 h)]

theorem begunBy_stray (h : IsStray c) : previous.begunBy c = unresolved := by
  obtain ⟨blank, digit, name, symbol⟩ := h
  simp only [symbolChars, List.mem_append, not_or] at symbol
  have opener : Bracket.ofOpener? c = none := by
    cases found : Bracket.ofOpener? c with
    | none => rfl
    | some b =>
      obtain rfl := Bracket.ofOpener?_eq_some_iff.1 found
      cases b <;> simp [Bracket.opener] at symbol
  unfold begunBy
  rw [if_neg (Bool.eq_false_iff.1 blank), if_neg (Bool.eq_false_iff.1 digit),
    if_neg (Bool.eq_false_iff.1 name), if_neg (fun member => symbol.1 (List.contains_iff_mem.1 member)),
    opener]
  split
  · next found => cases found
  · split
    case h_10 => rfl
    all_goals exact absurd (by decide) symbol.2

/-- The kind that the first character of a token gives it. -/
def origin : Kind → Kind
  | position => number
  | comment | docComment => slash
  | labelMark => methodCall
  | k => k

/-- Two kinds of one origin, the kind of the shorter token first. -/
def Outgrown (k k' : Kind) : Prop :=
  (k = number ∧ k' = position) ∨ (k = slash ∧ (k' = comment ∨ k' = docComment)) ∨
    (k = comment ∧ k' = docComment) ∨ (k = methodCall ∧ k' = labelMark)

theorem eq_or_outgrown {k k' : Kind} (same : k.origin = k'.origin) :
    k = k' ∨ Outgrown k k' ∨ Outgrown k' k := by
  unfold origin at same
  grind [Outgrown]

end Kind

namespace Token

variable {t : Token} {previous : Kind} {more : Text}

theorem HasForm.front (h : t.HasForm text) {f : Frame} (framed : t.kind.frame? = some f) :
    ∃ behind, t.literal = f.front ++ behind := by
  obtain ⟨body, -, literal⟩ := h.framed f framed
  rcases literal with ⟨last, -, same⟩ | ⟨same, -⟩
  · exact ⟨body ++ [last], by rw [same, List.append_assoc]⟩
  · exact ⟨body, same⟩

/-- Behind a token that agrees with its being a label or not, the first character of an item begins
a token of the item's origin. -/
theorem HasForm.begunBy_eq (h : t.HasForm text) (item : t.kind.isItem)
    (literal : t.literal = c :: more) (label : t.kind = .label → previous = .labelMark)
    (name : t.kind = .identifier → previous ≠ .labelMark) :
    previous.begunBy c = t.kind.origin := by
  have spelled := h.spelled
  have front : ∀ f first behind, t.kind.frame? = some f → f.front = first :: behind → c = first := by
    intro f first behind framed same
    obtain ⟨body, spelled⟩ := h.front framed
    rw [literal, same] at spelled
    exact (List.cons.inj spelled).1
  cases kind : t.kind with
  | line | indent | escape | commentContent | semantic _ => simp [kind, Kind.isItem] at item
  | whitespace =>
    rw [kind, literal] at spelled
    exact Kind.begunBy_blank (spelled rfl c (by simp))
  | identifier =>
    rw [kind, literal] at spelled
    obtain ⟨first, rest, same, start, -⟩ := spelled rfl
    obtain rfl := (List.cons.inj same).1
    rw [Kind.begunBy_name start, if_neg (name kind)]
    rfl
  | label =>
    rw [kind, literal] at spelled
    obtain ⟨first, rest, same, start, -⟩ := spelled rfl
    obtain rfl := (List.cons.inj same).1
    rw [Kind.begunBy_name start, if_pos (label kind)]
    rfl
  | command =>
    rw [kind, literal] at spelled
    obtain ⟨rest, same, -⟩ := spelled rfl
    rw [(List.cons.inj same).1]
    rfl
  | number =>
    rw [kind, literal] at spelled
    obtain ⟨first, rest, unit, same, digit, -⟩ := spelled rfl
    obtain rfl := (List.cons.inj same).1
    exact Kind.begunBy_digit digit
  | position =>
    rw [kind, literal] at spelled
    obtain ⟨first, left, right, same, digit, -⟩ := spelled rfl
    obtain rfl := (List.cons.inj same).1
    exact Kind.begunBy_digit digit
  | quoted q =>
    rw [front _ q.mark [] (congrArg Kind.frame? kind) rfl]
    cases q <;> rfl
  | comment =>
    rw [front _ '/' ['/'] (congrArg Kind.frame? kind) rfl]
    rfl
  | docComment =>
    rw [front _ '/' ['/', '/'] (congrArg Kind.frame? kind) rfl]
    rfl
  | brackets b =>
    rw [front _ b.opener [] (congrArg Kind.frame? kind) rfl]
    exact Kind.begunBy_eq_brackets_iff.2 rfl
  | operator =>
    rw [kind, literal] at spelled
    obtain ⟨x, member, same⟩ := spelled rfl
    rw [(List.cons.inj same).1]
    exact Kind.begunBy_operator member
  | unresolved =>
    rw [kind, literal] at spelled
    obtain ⟨x, stray, same⟩ := spelled rfl
    rw [(List.cons.inj same).1]
    exact Kind.begunBy_stray stray
  | slash | methodCall | labelMark | dot | comma | lambdaHat | assignment =>
    rw [kind, literal] at spelled
    rw [(List.cons.inj (spelled rfl)).1]
    rfl

/-- Some token in front of an item agrees with its being a label or not. -/
theorem HasForm.exists_begunBy (h : t.HasForm text) (item : t.kind.isItem)
    (literal : t.literal = c :: more) : ∃ previous : Kind, previous.begunBy c = t.kind.origin := by
  by_cases label : t.kind = .label
  · exact ⟨.labelMark, h.begunBy_eq item literal (fun _ => rfl) (by simp [label])⟩
  · exact ⟨.line, h.begunBy_eq item literal (fun same => (label same).elim) (by simp)⟩

/-- Only whitespace begins with a blank character. -/
theorem HasForm.whitespace_of_blank (h : t.HasForm text) (item : t.kind.isItem)
    (literal : t.literal = c :: more) (blank : isBlank c) : t.kind = .whitespace := by
  obtain ⟨previous, begun⟩ := h.exists_begunBy item literal
  rw [Kind.begunBy_blank blank] at begun
  cases kind : t.kind <;> simp [kind, Kind.origin] at begun ⊢

/-- Only a token of its own begins with a closing bracket. -/
theorem HasForm.unresolved_of_closer (h : t.HasForm text) (item : t.kind.isItem) {b : Bracket}
    (literal : t.literal = b.closer :: more) : t.kind = .unresolved ∧ t.literal = [b.closer] := by
  obtain ⟨previous, begun⟩ := h.exists_begunBy item literal
  rw [Kind.begunBy_closer] at begun
  have kind : t.kind = .unresolved := by
    cases kind : t.kind <;> simp [kind, Kind.origin] at begun ⊢
  have spelled := h.spelled (by rw [kind]; rfl)
  rw [kind] at spelled
  obtain ⟨x, -, same⟩ := spelled
  rw [literal] at same
  rw [literal, (List.cons.inj same).2]
  exact ⟨kind, rfl⟩

/-- What follows two tokens at one place, of which each is the longest of its kind. -/
theorem Conforms.together {a b : Token} (ha : a.Conforms line text) (hb : b.Conforms line text)
    (start : a.start = b.start) : ∃ behind after, a.literal ++ behind = b.literal ++ after ∧
      a.kind.Longest a.literal behind ∧ b.kind.Longest b.literal after := by
  obtain ⟨before, behind, place, here, longest⟩ := ha.place
  obtain ⟨before', after, place', here', longest'⟩ := hb.place
  have cut : Text.splitAtByte? text a.start = some (before, a.literal ++ behind) :=
    Text.splitAtByte?_eq_some_iff.2 ⟨by rw [place, List.append_assoc], here⟩
  have cut' : Text.splitAtByte? text a.start = some (before', b.literal ++ after) :=
    Text.splitAtByte?_eq_some_iff.2 ⟨by rw [place', List.append_assoc], here'.trans start.symm⟩
  have same := Option.some.inj (cut.symm.trans cut')
  exact ⟨behind, after, (Prod.mk.inj same).2, longest, longest'⟩

end Token
end LineTree
