/-!
# Text and its byte offsets

A text is a list of characters. Positions inside a line are counted in bytes of its UTF-8
form, so a position may fall inside a character; cutting at such a position fails.
Main statements: `Text.splitAtByte?_eq_some_iff`, `Text.slice?_eq_some_iff`.
-/
namespace LineTree

/-- A text, as the list of its characters. -/
abbrev Text := List Char

namespace Text

/-- Number of bytes of the UTF-8 form. -/
def byteLength : Text → Nat
  | [] => 0
  | c :: rest => c.utf8Size + byteLength rest

@[simp] theorem byteLength_nil : byteLength [] = 0 := rfl

@[simp] theorem byteLength_cons (c : Char) (rest : Text) :
    byteLength (c :: rest) = c.utf8Size + byteLength rest := rfl

@[simp] theorem byteLength_append (a b : Text) :
    byteLength (a ++ b) = byteLength a + byteLength b := by
  induction a with
  | nil => simp
  | cons c a ih => simp [ih, Nat.add_assoc]

theorem byteLength_eq_zero_iff (t : Text) : byteLength t = 0 ↔ t = [] := by
  cases t with
  | nil => simp
  | cons c t =>
    have hc := c.utf8Size_pos
    simp only [byteLength_cons, reduceCtorEq, iff_false]
    omega

/-- The UTF-8 form. -/
def toBytes (t : Text) : List UInt8 := t.flatMap String.utf8EncodeChar

theorem length_toBytes (t : Text) : (toBytes t).length = byteLength t := by
  induction t with
  | nil => rfl
  | cons c t ih =>
    have h : toBytes (c :: t) = String.utf8EncodeChar c ++ toBytes t := rfl
    simp [h, ih]

/-- Cuts the text in front of the given byte. Fails past the end and inside a character. -/
def splitAtByte? : Text → Nat → Option (Text × Text)
  | t, 0 => some ([], t)
  | [], _ + 1 => none
  | c :: rest, n + 1 =>
    if c.utf8Size ≤ n + 1 then
      (splitAtByte? rest (n + 1 - c.utf8Size)).map fun (before, after) => (c :: before, after)
    else none

theorem splitAtByte?_append (a b : Text) : splitAtByte? (a ++ b) (byteLength a) = some (a, b) := by
  induction a with
  | nil => simp [splitAtByte?]
  | cons c a ih =>
    have hc := c.utf8Size_pos
    obtain ⟨n, hn⟩ : ∃ n, byteLength (c :: a) = n + 1 :=
      ⟨c.utf8Size + byteLength a - 1, by simp only [byteLength_cons]; omega⟩
    have hle : c.utf8Size ≤ n + 1 := by rw [← hn]; simp
    have hrest : n + 1 - c.utf8Size = byteLength a := by rw [← hn]; simp
    rw [hn, List.cons_append, splitAtByte?, if_pos hle, hrest, ih]
    rfl

theorem append_of_splitAtByte? {t a b : Text} {n : Nat} (h : splitAtByte? t n = some (a, b)) :
    t = a ++ b ∧ byteLength a = n := by
  fun_induction splitAtByte? t n generalizing a b with
  | case1 t => simp_all
  | case2 => simp at h
  | case3 c rest n hle ih =>
    obtain ⟨⟨before, after⟩, hs, hab⟩ := Option.map_eq_some_iff.1 h
    obtain ⟨rfl, rfl⟩ := Prod.mk.inj hab
    obtain ⟨rfl, hlen⟩ := ih hs
    exact ⟨rfl, by simp only [byteLength_cons, hlen]; omega⟩
  | case4 => simp at h

/-- A cut succeeds exactly at the ends of characters. -/
theorem splitAtByte?_eq_some_iff {t a b : Text} {n : Nat} :
    splitAtByte? t n = some (a, b) ↔ t = a ++ b ∧ byteLength a = n :=
  ⟨append_of_splitAtByte?, fun ⟨ht, hn⟩ => by rw [ht, ← hn, splitAtByte?_append]⟩

/-- The text from byte `first` up to byte `last`, if both are ends of characters, in order. -/
def slice? (t : Text) (first last : Nat) : Option Text :=
  if first ≤ last then
    (splitAtByte? t first).bind fun cut => (splitAtByte? cut.2 (last - first)).map Prod.fst
  else none

theorem slice?_eq_some_iff {t m : Text} {first last : Nat} :
    slice? t first last = some m ↔
      ∃ a b, t = a ++ m ++ b ∧ byteLength a = first ∧ first + byteLength m = last := by
  unfold slice?
  constructor
  · intro h
    split at h
    · next hle =>
      obtain ⟨⟨a, rest⟩, ha, h⟩ := Option.bind_eq_some_iff.1 h
      obtain ⟨⟨m', b⟩, hm, rfl⟩ := Option.map_eq_some_iff.1 h
      obtain ⟨rfl, hal⟩ := splitAtByte?_eq_some_iff.1 ha
      obtain ⟨rfl, hml⟩ := splitAtByte?_eq_some_iff.1 hm
      exact ⟨a, b, by simp, hal, by simp only [hml]; omega⟩
    · cases h
  · rintro ⟨a, b, rfl, ha, hm⟩
    have h1 : splitAtByte? (a ++ m ++ b) first = some (a, m ++ b) :=
      splitAtByte?_eq_some_iff.2 ⟨by simp, ha⟩
    have h2 : splitAtByte? (m ++ b) (last - first) = some (m, b) :=
      splitAtByte?_eq_some_iff.2 ⟨rfl, by omega⟩
    rw [if_pos (by omega), h1, Option.bind_some, h2, Option.map_some]

end Text
end LineTree
