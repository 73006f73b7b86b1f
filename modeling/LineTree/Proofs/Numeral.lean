import LineTree.Number.Decimal
import LineTree.Proofs.Shortness
import Mathlib.Tactic.FieldSimp

/-!
# Numbers are read as they were written

The text of a finite floating-point number, in any style, is a numeral: digits, maybe a point with
digits behind it, maybe an exponent. A numeral is read as the number nearest to its value, and the
value that is written lies in the rounding interval. So every finite number is read back exactly.
Main statements: `readInteger?_writeInteger`, `Numeral.readDecimal?_text`,
`DecimalStyle.readFloat?_write`.
-/
namespace LineTree

/-- All characters are digits. -/
def AllDigits (t : Text) : Prop := ∀ c ∈ t, c.isDigit

/-- The text does not begin with a digit. -/
def NoDigitFirst (t : Text) : Prop := ∀ c ∈ t.head?, c.isDigit = false

section Digits

variable {t rest : Text} {n : Nat}

theorem allDigits_writeNat (n : Nat) : AllDigits (writeNat n) := fun _ member =>
  Nat.isDigit_of_mem_toDigits (by decide) (by decide) member

theorem writeNat_ne_nil (n : Nat) : writeNat n ≠ [] := Nat.toDigits_ne_nil

theorem AllDigits.append (ht : AllDigits t) (hr : AllDigits rest) : AllDigits (t ++ rest) := by
  intro c member
  rcases List.mem_append.1 member with front | behind
  · exact ht c front
  · exact hr c behind

theorem allDigits_replicate (n : Nat) : AllDigits (List.replicate n '0') := by
  intro c member
  rw [List.eq_of_mem_replicate member]
  decide

/-- Characters of one class end in front of another character. -/
theorem span_class {p : Char → Bool} (ht : ∀ c ∈ t, p c = true)
    (stops : ∀ c ∈ rest.head?, p c = false) :
    (t ++ rest).takeWhile p = t ∧ (t ++ rest).dropWhile p = rest := by
  rw [List.takeWhile_append_of_pos ht, List.dropWhile_append_of_pos ht]
  cases rest with
  | nil => simp
  | cons c rest =>
    have other : p c = false := stops c rfl
    simp [other]

theorem readDigitsAfter_eq (ht : AllDigits t) (n : Nat) :
    readDigitsAfter n t = some (Nat.ofDigitChars 10 t n) := by
  induction t generalizing n with
  | nil => simp [readDigitsAfter]
  | cons c t ih =>
    have digit : c.isDigit = true := ht c List.mem_cons_self
    have further : AllDigits t := fun d member => ht d (List.mem_cons_of_mem _ member)
    simp [readDigitsAfter, digitValue?, digit, ih further, Nat.ofDigitChars_cons]

theorem readNat?_eq (ht : AllDigits t) (nonempty : t ≠ []) :
    readNat? t = some (Nat.ofDigitChars 10 t 0) := by
  cases t with
  | nil => exact (nonempty rfl).elim
  | cons c t => exact readDigitsAfter_eq ht 0

theorem readNat?_writeNat (n : Nat) : readNat? (writeNat n) = some n := by
  rw [readNat?_eq (allDigits_writeNat n) (writeNat_ne_nil n), writeNat,
    Nat.ofDigitChars_ten_toDigits]

/-- A positive number has no leading zero. -/
theorem head?_writeNat (positive : 0 < n) : (writeNat n).head? ≠ some '0' := by
  induction n using Nat.base_induction 10 (by decide) with
  | single d small =>
    rw [writeNat, Nat.toDigits_of_lt_base small]
    simp
    omega
  | digit k d small whole ih =>
    rw [writeNat, ← Nat.toDigits_append_toDigits (by decide) whole small,
      List.head?_append_of_ne_nil _ Nat.toDigits_ne_nil]
    exact ih whole

theorem AllDigits.ne_sign {c : Char} (h : AllDigits (c :: t)) : c ≠ '+' ∧ c ≠ '-' := by
  have digit : c.isDigit = true := h c List.mem_cons_self
  constructor <;> rintro rfl <;> exact absurd digit (by decide)

/-- A number in the range of the reader is read back. -/
theorem readInteger?_writeInteger {n : Int} (low : -Int.ofNat (twoTo 63) ≤ n)
    (high : n < Int.ofNat (twoTo 63)) : readInteger? (writeInteger n) = some n := by
  have inside : (some n).filter (fun n => -Int.ofNat (twoTo 63) ≤ n && n < Int.ofNat (twoTo 63)) =
      some n := by
    rw [Option.filter_some, if_pos]
    rw [Bool.and_eq_true]
    exact ⟨decide_eq_true low, decide_eq_true high⟩
  cases n with
  | ofNat n =>
    have read := readNat?_writeNat n
    have digits := allDigits_writeNat n
    rw [writeInteger]
    generalize writeNat n = t at *
    unfold readInteger?
    split
    · exact (digits.ne_sign.1 rfl).elim
    · exact (digits.ne_sign.2 rfl).elim
    · rw [read]
      exact inside
  | negSucc n =>
    rw [writeInteger, readInteger?, readNat?_writeNat]
    exact inside

end Digits

/-- A decimal number in text: the digits in front of the point, those behind it, and the exponent.
Without digits behind it there is no point. -/
structure Numeral where
  whole : Text
  fraction : Text := []
  exponent : Option Int := none

/-- The digits behind a point, if there is one, and what follows. -/
def splitFraction (t : Text) : Text × Text :=
  match t with
  | '.' :: rest => (rest.takeWhile Char.isDigit, rest.dropWhile Char.isDigit)
  | _ => ([], t)

/-- The exponent of a number, read off what stands behind its digits. -/
def tailExponent? : Text → Option Int
  | [] => some 0
  | c :: rest => if c = 'e' || c = 'E' then readExponent? rest else none

theorem readDecimal?_eq (negative : Bool) (t : Text) : readDecimal? negative t =
    let (fraction, tail) := splitFraction (t.dropWhile Char.isDigit)
    match readNat? (t.takeWhile Char.isDigit ++ fraction), tailExponent? tail with
    | some digits, some exponent =>
      some (Binary64.ofDecimal negative digits (exponent - fraction.length))
    | _, _ => none := rfl

theorem splitFraction_point {fraction tail : Text} (digits : AllDigits fraction)
    (stops : NoDigitFirst tail) :
    splitFraction ('.' :: (fraction ++ tail)) = (fraction, tail) := by
  obtain ⟨front, behind⟩ := span_class digits stops
  rw [splitFraction, front, behind]

theorem splitFraction_none {tail : Text} (other : tail.head? ≠ some '.') :
    splitFraction tail = ([], tail) := by
  unfold splitFraction
  split
  · exact (other rfl).elim
  · rfl

theorem readExponent?_sign (k : Int) :
    readExponent? ((if k < 0 then '-' else '+') :: writeNat k.natAbs) = some k := by
  split
  · next negative =>
    rw [readExponent?, readNat?_writeNat, Option.map_some]
    congr 1
    rw [Int.ofNat_eq_natCast]
    omega
  · next positive =>
    rw [readExponent?, readNat?_writeNat, Option.map_some]
    congr 1
    rw [Int.ofNat_eq_natCast]
    omega

namespace Numeral

/-- The exponent in the text, empty if there is none. -/
def exponentText (n : Numeral) : Text :=
  match n.exponent with
  | none => []
  | some k => 'e' :: (if k < 0 then '-' else '+') :: writeNat k.natAbs

theorem exponentText_stops (n : Numeral) : NoDigitFirst n.exponentText := by
  unfold exponentText
  cases n.exponent with
  | none => simp [NoDigitFirst]
  | some k =>
    intro c first
    obtain rfl : 'e' = c := by simpa using first
    decide

theorem exponentText_head? (n : Numeral) : n.exponentText.head? ≠ some '.' := by
  unfold exponentText
  cases n.exponent with
  | none => simp
  | some k => simp

theorem tailExponent?_exponentText (n : Numeral) :
    tailExponent? n.exponentText = some (n.exponent.getD 0) := by
  unfold exponentText
  cases n.exponent with
  | none => rfl
  | some k => exact readExponent?_sign k

/-- A point and digits behind the whole part, if there are any, and the exponent. -/
def rest (n : Numeral) : Text :=
  if n.fraction = [] then n.exponentText else '.' :: (n.fraction ++ n.exponentText)

def text (n : Numeral) : Text := n.whole ++ n.rest

theorem rest_stops (n : Numeral) : NoDigitFirst n.rest := by
  unfold rest
  split
  · exact n.exponentText_stops
  · simp [NoDigitFirst]

theorem splitFraction_rest {n : Numeral} (digits : AllDigits n.fraction) :
    splitFraction n.rest = (n.fraction, n.exponentText) := by
  unfold rest
  split
  · next empty => rw [splitFraction_none n.exponentText_head?, empty]
  · exact splitFraction_point digits n.exponentText_stops

/-- All digits as one whole number. -/
def digits (n : Numeral) : Nat := Nat.ofDigitChars 10 (n.whole ++ n.fraction) 0

/-- The place of the last digit. -/
def place (n : Numeral) : Int := n.exponent.getD 0 - n.fraction.length

/-- The numeral has the usual form: there are digits in front of the point, and the first one is a
zero only if there is no other. -/
structure Proper (n : Numeral) : Prop where
  nonempty : n.whole ≠ []
  whole : AllDigits n.whole
  fraction : AllDigits n.fraction
  leading : n.whole.head? = some '0' → n.whole = ['0']

/-- A numeral is read as the number nearest to it. -/
theorem readDecimal?_text {n : Numeral} (h : n.Proper) (negative : Bool) :
    readDecimal? negative n.text = some (Binary64.ofDecimal negative n.digits n.place) := by
  obtain ⟨front, behind⟩ := span_class h.whole n.rest_stops
  have number : readNat? (n.whole ++ n.fraction) = some n.digits :=
    readNat?_eq (h.whole.append h.fraction) (by simp [h.nonempty])
  rw [readDecimal?_eq, text, front, behind, splitFraction_rest h.fraction]
  dsimp only
  rw [number, n.tailExponent?_exponentText]
  rfl

/-- The number that the numeral stands for. -/
def value (n : Numeral) : ℚ := n.digits * 10 ^ n.place

end Numeral

namespace Significant

variable {s : Significant}

/-- The digits around the point, as far as it lies among them or in front of them, and zeros. -/
def positional (style : DecimalStyle) (s : Significant) : Numeral :=
  let digits := writeNat s.digits
  let whole : Int := digits.length + s.exponent
  if 0 ≤ s.exponent then
    { whole := digits ++ List.replicate s.exponent.toNat '0'
      fraction := List.replicate (if style.marksWhole then 1 else 0) '0' }
  else if 0 < whole then
    { whole := digits.take whole.toNat, fraction := digits.drop whole.toNat }
  else { whole := ['0'], fraction := List.replicate (-whole).toNat '0' ++ digits }

/-- One digit in front of the point. -/
def scientific (s : Significant) : Numeral :=
  let digits := writeNat s.digits
  { whole := digits.take 1, fraction := digits.drop 1
    exponent := some (digits.length + s.exponent - 1) }

theorem positionalText_eq (style : DecimalStyle) (s : Significant) :
    style.positionalText s = (s.positional style).text := by
  unfold DecimalStyle.positionalText positional
  dsimp only
  split
  · cases style.marksWhole <;> simp [Numeral.text, Numeral.rest, Numeral.exponentText]
  · split
    · next negative positive =>
      have several : (writeNat s.digits).drop
          (((writeNat s.digits).length : Int) + s.exponent).toNat ≠ [] := by
        rw [Ne, List.drop_eq_nil_iff]
        omega
      simp [Numeral.text, Numeral.rest, Numeral.exponentText, several]
    · simp [Numeral.text, Numeral.rest, Numeral.exponentText, writeNat_ne_nil]

theorem exponentText_eq (s : Significant) :
    DecimalStyle.exponentText s = s.scientific.text := by
  unfold DecimalStyle.exponentText scientific
  have nonempty := writeNat_ne_nil s.digits
  dsimp only
  generalize writeNat s.digits = digits at *
  match digits with
  | [] => exact (nonempty rfl).elim
  | [first] => simp [Numeral.text, Numeral.rest, Numeral.exponentText]
  | first :: next :: rest => simp [Numeral.text, Numeral.rest, Numeral.exponentText]

theorem head?_take {t : Text} {k : Nat} (positive : 0 < k) : (t.take k).head? = t.head? := by
  cases t with
  | nil => simp
  | cons c t =>
    obtain ⟨j, rfl⟩ := Nat.exists_eq_succ_of_ne_zero positive.ne'
    rfl

theorem allDigits_take {t : Text} (h : AllDigits t) (k : Nat) : AllDigits (t.take k) :=
  fun _ member => h _ (List.mem_of_mem_take member)

theorem allDigits_drop {t : Text} (h : AllDigits t) (k : Nat) : AllDigits (t.drop k) :=
  fun _ member => h _ (List.mem_of_mem_drop member)

/-- Some digits from the front of a positive number make a whole part. -/
theorem take_proper {k : Nat} (h : 0 < s.digits) (positive : 0 < k) (exponent : Option Int) :
    Numeral.Proper ⟨(writeNat s.digits).take k, (writeNat s.digits).drop k, exponent⟩ where
  nonempty := by
    have several := writeNat_ne_nil s.digits
    simp [positive.ne', several]
  whole := allDigits_take (allDigits_writeNat s.digits) k
  fraction := allDigits_drop (allDigits_writeNat s.digits) k
  leading zero := by
    rw [head?_take positive] at zero
    exact (head?_writeNat h zero).elim

theorem positional_proper (style : DecimalStyle) (h : 0 < s.digits ∨ s.exponent = 0) :
    (s.positional style).Proper := by
  have digits := allDigits_writeNat s.digits
  unfold positional
  dsimp only
  split
  · constructor
    · simp [writeNat_ne_nil]
    · exact digits.append (allDigits_replicate _)
    · exact allDigits_replicate _
    · intro zero
      dsimp only at zero ⊢
      rw [List.head?_append_of_ne_nil _ (writeNat_ne_nil _)] at zero
      rcases h with positive | whole
      · exact (head?_writeNat positive zero).elim
      · rcases Nat.eq_zero_or_pos s.digits with none | positive
        · rw [none, whole]
          rfl
        · exact (head?_writeNat positive zero).elim
  · next negative =>
    split
    · next inside => exact take_proper (by omega) (by omega) none
    · constructor
      · simp
      · exact fun c member => by
          rw [List.mem_singleton.1 member]
          decide
      · exact (allDigits_replicate _).append digits
      · exact fun _ => rfl

theorem scientific_proper (h : 0 < s.digits) : s.scientific.Proper :=
  take_proper h Nat.one_pos _

theorem value_positional (style : DecimalStyle) (s : Significant) :
    (s.positional style).value = s.value := by
  have digits : Nat.ofDigitChars 10 (writeNat s.digits) 0 = s.digits :=
    Nat.ofDigitChars_ten_toDigits
  unfold positional
  dsimp only
  split
  · next whole =>
    have exponent : (10 : ℚ) ^ s.exponent.toNat = 10 ^ s.exponent := by
      rw [← zpow_natCast, Int.toNat_of_nonneg whole]
    generalize (if style.marksWhole then 1 else 0) = zeros
    simp only [Numeral.value, Numeral.digits, Numeral.place, Nat.ofDigitChars_append, digits,
      Nat.ofDigitChars_replicate_zero, List.length_replicate, Option.getD_none, value, zero_sub,
      zpow_neg, zpow_natCast]
    push_cast
    rw [exponent]
    field_simp
  · next negative =>
    split
    · next inside =>
      simp only [Numeral.value, Numeral.digits, Numeral.place, List.take_append_drop, digits, value,
        List.length_drop]
      congr 2
      simp
      omega
    · have leading : Nat.ofDigitChars 10 (['0'] ++ (List.replicate
          (-(((writeNat s.digits).length : Int) + s.exponent)).toNat '0' ++ writeNat s.digits)) 0 =
          s.digits := by
        simp [Nat.ofDigitChars_append, digits, Nat.ofDigitChars_cons]
      simp only [Numeral.value, Numeral.digits, Numeral.place, leading, value, List.length_append,
        List.length_replicate, Option.getD_none]
      congr 2
      push_cast
      omega

theorem value_scientific (s : Significant) : s.scientific.value = s.value := by
  have digits : Nat.ofDigitChars 10 (writeNat s.digits) 0 = s.digits :=
    Nat.ofDigitChars_ten_toDigits
  have length : 0 < (writeNat s.digits).length := Nat.length_toDigits_pos
  simp only [scientific, Numeral.value, Numeral.digits, Numeral.place, List.take_append_drop,
    digits, value, List.length_drop, Option.getD_some]
  congr 2
  omega

end Significant

namespace Numeral

variable {n : Numeral}

/-- A numeral begins with a digit. -/
theorem Proper.text_eq_cons (h : n.Proper) : ∃ c t, n.text = c :: t ∧ c.isDigit := by
  cases whole : n.whole with
  | nil => exact (h.nonempty whole).elim
  | cons c t =>
    refine ⟨c, t ++ n.rest, by rw [text, whole, List.cons_append], h.whole c ?_⟩
    rw [whole]
    exact List.mem_cons_self

theorem toLower_of_isDigit {c : Char} (digit : c.isDigit) : c.toLower = c := by
  have below : c.val ≤ '9'.val := by
    rw [Char.isDigit, Bool.and_eq_true] at digit
    exact of_decide_eq_true digit.2
  refine dif_neg ?_
  rintro ⟨above, -⟩
  exact absurd (UInt32.le_trans above below) (by decide)

/-- A word that does not begin with a digit is no numeral. -/
theorem matchesWord_eq_false {c d : Char} {t rest : Text} {word : String} (digit : c.isDigit)
    (front : word.toList = d :: rest) (other : d.isDigit = false) :
    matchesWord word (c :: t) = false := by
  rw [matchesWord, decide_eq_false_iff_not, List.map_cons, toLower_of_isDigit digit, front]
  intro same
  obtain rfl : c = d := (List.cons.inj same).1
  cases digit.symm.trans other

/-- The sign in front of a number, and the number without it. -/
def splitSign (t : Text) : Bool × Text :=
  match t with
  | '-' :: rest => (true, rest)
  | '+' :: rest => (false, rest)
  | _ => (false, t)

theorem readFloat?_eq (t : Text) : readFloat? t =
    let (negative, size) := splitSign t
    if matchesWord "inf" size || matchesWord "infinity" size then some (.infinity negative)
    else if matchesWord "nan" size then some (.notANumber negative)
    else readDecimal? negative size := rfl

theorem splitSign_digit {c : Char} {t : Text} (digit : c.isDigit) :
    splitSign (c :: t) = (false, c :: t) := by
  unfold splitSign
  split
  · next same =>
    obtain ⟨rfl, -⟩ := List.cons.inj same
    cases digit
  · next same =>
    obtain ⟨rfl, -⟩ := List.cons.inj same
    cases digit
  · rfl

/-- What begins with a digit behind an optional sign is no word. -/
theorem readFloat?_digit {c : Char} {t : Text} (digit : c.isDigit) (negative : Bool) :
    readFloat? ((if negative then ['-'] else []) ++ c :: t) = readDecimal? negative (c :: t) := by
  have short : matchesWord "inf" (c :: t) = false := matchesWord_eq_false digit rfl rfl
  have long : matchesWord "infinity" (c :: t) = false := matchesWord_eq_false digit rfl rfl
  have undefined : matchesWord "nan" (c :: t) = false := matchesWord_eq_false digit rfl rfl
  have sign : splitSign ((if negative then ['-'] else []) ++ c :: t) = (negative, c :: t) := by
    cases negative with
    | true => rfl
    | false => exact splitSign_digit digit
  rw [readFloat?_eq, sign]
  simp [short, long, undefined]

theorem readFloat?_text (h : n.Proper) (negative : Bool) :
    readFloat? ((if negative then ['-'] else []) ++ n.text) = readDecimal? negative n.text := by
  obtain ⟨c, t, text, digit⟩ := h.text_eq_cons
  rw [text]
  exact readFloat?_digit digit negative

/-- A whole number as a numeral. -/
def ofNat (n : Nat) : Numeral := { whole := writeNat n }

theorem ofNat_proper (n : Nat) : (ofNat n).Proper where
  nonempty := writeNat_ne_nil n
  whole := allDigits_writeNat n
  fraction := fun _ member => nomatch member
  leading zero := by
    rcases Nat.eq_zero_or_pos n with rfl | positive
    · rfl
    · exact (head?_writeNat positive zero).elim

theorem writeInteger_eq (n : Int) :
    writeInteger n = (if decide (n < 0) then ['-'] else []) ++ (ofNat n.natAbs).text := by
  cases n with
  | ofNat n => simp [writeInteger, ofNat, text, rest, exponentText]
  | negSucc n => simp [writeInteger, ofNat, text, rest, exponentText, Int.negSucc_lt_zero]

end Numeral

namespace DecimalStyle

/-- The numeral that stands for a finite size. -/
def numeral (style : DecimalStyle) (m : Nat) (e : Int) : Numeral :=
  if m = 0 then Significant.positional style ⟨0, 0⟩
  else
    let s := shortest m e style.tie
    if style.positional ((writeNat s.digits).length + s.exponent - 1) then s.positional style
    else s.scientific

theorem sizeText_eq (style : DecimalStyle) (m : Nat) (e : Int) :
    style.sizeText m e = (style.numeral m e).text := by
  unfold sizeText numeral
  dsimp only
  split
  · exact Significant.positionalText_eq style ⟨0, 0⟩
  · split
    · exact Significant.positionalText_eq style _
    · exact Significant.exponentText_eq _

variable {x : Binary64} {m : Nat} {e : Int}

theorem shortest_digits_pos (h : Binary64.Canonical m e) (tie : Tie) :
    0 < (shortest m e tie).digits := by
  have least := (Binary64.near_shortest h tie).least h
  rcases Nat.eq_zero_or_pos (shortest m e tie).digits with none | positive
  · rw [Significant.value, none, Nat.cast_zero, zero_mul] at least
    exact absurd least (not_le.2 (by positivity))
  · exact positive

theorem numeral_proper (style : DecimalStyle) (finite : x.size = .finite m e) :
    (style.numeral m e).Proper := by
  unfold numeral
  dsimp only
  split
  · exact Significant.positional_proper style (Or.inr rfl)
  · next positive =>
    have canonical := (Binary64.magnitude_of_size finite).2.2.2 (Nat.pos_of_ne_zero positive)
    have digits := shortest_digits_pos canonical style.tie
    split
    · exact Significant.positional_proper style (Or.inl digits)
    · exact Significant.scientific_proper digits

/-- The numeral is read as the number that it was written for. -/
theorem ofDecimal_numeral (style : DecimalStyle) (finite : x.size = .finite m e) :
    Binary64.ofDecimal x.negative (style.numeral m e).digits (style.numeral m e).place = x := by
  unfold numeral
  dsimp only
  split
  · next zero =>
    obtain ⟨magnitude, small, lowest, -⟩ := Binary64.magnitude_of_size finite
    have none : x.magnitude.val = 0 := by rw [magnitude, zero, lowest zero]; rfl
    have value := Significant.value_positional style ⟨0, 0⟩
    have nothing : (Significant.positional style ⟨0, 0⟩).digits = 0 := by
      have power : (10 : ℚ) ^ (Significant.positional style ⟨0, 0⟩).place ≠ 0 := by positivity
      simpa [Numeral.value, Significant.value, power] using value
    rw [nothing, Binary64.ofDecimal]
    simp only [decide_true, Bool.true_or, if_true]
    rw [← none]
    exact Binary64.ofMagnitude_magnitude small
  · next positive =>
    have positive := Nat.pos_of_ne_zero positive
    have canonical := (Binary64.magnitude_of_size finite).2.2.2 positive
    have near := Binary64.near_shortest canonical style.tie
    split
    · rw [← Significant.value_positional style] at near
      exact Binary64.ofDecimal_eq finite positive near
    · rw [← Significant.value_scientific] at near
      exact Binary64.ofDecimal_eq finite positive near

theorem write_eq (style : DecimalStyle) (finite : x.size = .finite m e) :
    style.write x = (if x.negative then ['-'] else []) ++ (style.numeral m e).text := by
  rw [write, finite, ← sizeText_eq]

/-- A finite number is read back, whatever its style. -/
theorem readFloat?_write (style : DecimalStyle) (finite : x.size = .finite m e) :
    readFloat? (style.write x) = some x := by
  have proper := style.numeral_proper finite
  rw [write_eq style finite, Numeral.readFloat?_text proper, Numeral.readDecimal?_text proper,
    ofDecimal_numeral style finite]

end DecimalStyle
end LineTree
