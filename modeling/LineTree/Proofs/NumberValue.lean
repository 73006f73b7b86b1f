import LineTree.Proofs.TreeReading

/-!
# Values of number literals

A number literal is made of digits and points, begins with a digit and may end in one unit. Without
a unit and without a point it is a whole number, as far as the range goes; any other is read as a
floating-point number, which takes one point and no second. Main statements:
`readFloat?_isSome_iff`, `readInteger?_digits`, `Token.ofLine_number_decoded`.
-/
namespace LineTree

variable {t whole fraction tail rest : Text}

theorem allDigits_nil : AllDigits [] := fun _ member => nomatch member

theorem noDigitFirst_nil : NoDigitFirst [] := fun _ first => nomatch first

/-- Digits end at the end of the text or at a point. -/
theorem exists_point (chars : ∀ c ∈ t, isNumberChar c) : AllDigits t ∨
    ∃ whole rest, t = whole ++ '.' :: rest ∧ AllDigits whole ∧ ∀ c ∈ rest, isNumberChar c := by
  induction t with
  | nil => exact Or.inl allDigits_nil
  | cons c t ih =>
    have behind : ∀ d ∈ t, isNumberChar d := fun d member => chars d (List.mem_cons_of_mem c member)
    have first := chars c List.mem_cons_self
    rw [isNumberChar, Bool.or_eq_true, beq_iff_eq] at first
    rcases first with digit | rfl
    · have single : AllDigits [c] := fun d member => List.mem_singleton.1 member ▸ digit
      rcases ih behind with digits | ⟨whole, rest, rfl, digits, others⟩
      · exact Or.inl (single.append digits)
      · exact Or.inr ⟨c :: whole, rest, rfl, single.append digits, others⟩
    · exact Or.inr ⟨[], t, rfl, allDigits_nil, behind⟩

theorem AllDigits.count_point (h : AllDigits t) : t.count '.' = 0 :=
  List.count_eq_zero.2 fun member => absurd (h '.' member) (by decide)

/-- A text of digits and points, told apart by its points: none, one, or several. -/
theorem point_cases (chars : ∀ c ∈ t, isNumberChar c) :
    (AllDigits t ∧ t.count '.' = 0) ∨
    (∃ whole fraction, t = whole ++ '.' :: fraction ∧ AllDigits whole ∧ AllDigits fraction ∧
      t.count '.' = 1) ∨
    ∃ whole fraction rest, t = whole ++ '.' :: (fraction ++ '.' :: rest) ∧ AllDigits whole ∧
      AllDigits fraction ∧ 2 ≤ t.count '.' := by
  rcases exists_point chars with digits | ⟨whole, behind, rfl, front, others⟩
  · exact Or.inl ⟨digits, digits.count_point⟩
  · rcases exists_point others with digits | ⟨fraction, rest, rfl, middle, -⟩
    · refine Or.inr (Or.inl ⟨whole, behind, rfl, front, digits, ?_⟩)
      rw [List.count_append, List.count_cons_self, front.count_point, digits.count_point]
    · refine Or.inr (Or.inr ⟨whole, fraction, rest, rfl, front, middle, ?_⟩)
      rw [List.count_append, List.count_cons_self, List.count_append, List.count_cons_self]
      omega

/-- The digits around the first point are read as one number, and what follows as an exponent. -/
theorem readFloat?_append (digits : AllDigits whole) (nonempty : whole ≠ [])
    (stops : NoDigitFirst rest) (split : splitFraction rest = (fraction, tail))
    (behind : AllDigits fraction) : readFloat? (whole ++ rest) =
      (tailExponent? tail).map fun exponent => Binary64.ofDecimal false
        (Nat.ofDigitChars 10 (whole ++ fraction) 0) (exponent - fraction.length) := by
  have number := readNat?_eq (digits.append behind) (List.append_ne_nil_of_left_ne_nil nonempty _)
  obtain ⟨first, more, rfl⟩ := List.exists_cons_of_ne_nil nonempty
  obtain ⟨front, rest_eq⟩ := span_class digits stops
  have unsigned := Numeral.readFloat?_digit (t := more ++ rest) (digits first List.mem_cons_self)
    false
  rw [if_neg Bool.false_ne_true, List.nil_append, ← List.cons_append] at unsigned
  rw [unsigned, readDecimal?_eq, front, rest_eq, split]
  dsimp only
  rw [number]
  cases tailExponent? tail <;> rfl

theorem readFloat?_digits (digits : AllDigits t) (nonempty : t ≠ []) :
    readFloat? t = some (Binary64.ofDecimal false (Nat.ofDigitChars 10 t 0) 0) := by
  have read := readFloat?_append digits nonempty noDigitFirst_nil (splitFraction_none (by simp))
    allDigits_nil
  rw [List.append_nil] at read
  exact read

theorem readFloat?_point (digits : AllDigits whole) (nonempty : whole ≠ [])
    (behind : AllDigits fraction) : readFloat? (whole ++ '.' :: fraction) =
      some (Binary64.ofDecimal false (Nat.ofDigitChars 10 (whole ++ fraction) 0)
        (-fraction.length)) := by
  have split := splitFraction_point behind noDigitFirst_nil
  rw [List.append_nil] at split
  rw [readFloat?_append digits nonempty (by simp [NoDigitFirst]) split behind, tailExponent?,
    Option.map_some, Int.zero_sub]

theorem readFloat?_points (digits : AllDigits whole) (nonempty : whole ≠ [])
    (behind : AllDigits fraction) :
    readFloat? (whole ++ '.' :: (fraction ++ '.' :: rest)) = none := by
  have stops : NoDigitFirst ('.' :: rest) := by simp [NoDigitFirst]
  have split := splitFraction_point behind stops
  rw [readFloat?_append digits nonempty (by simp [NoDigitFirst]) split behind, tailExponent?,
    if_neg (by decide), Option.map_none]

/-- Digits and points behind a digit make a floating-point number if there is at most one point. -/
theorem readFloat?_isSome_iff (chars : ∀ c ∈ t, isNumberChar c)
    (first : ∃ c ∈ t.head?, c.isDigit) : (readFloat? t).isSome ↔ t.count '.' ≤ 1 := by
  -- the digit in front makes the whole part nonempty in each case
  have leading (whole behind : Text) (point : t = whole ++ '.' :: behind) : whole ≠ [] := by
    rintro rfl
    obtain ⟨c, head, digit⟩ := first
    rw [point] at head
    obtain rfl : '.' = c := by simpa using head
    cases digit
  rcases point_cases chars with ⟨digits, count⟩ | ⟨whole, fraction, point, front, behind, count⟩ |
    ⟨whole, fraction, rest, point, front, behind, count⟩
  · have nonempty : t ≠ [] := by
      rintro rfl
      obtain ⟨c, head, -⟩ := first
      cases head
    simp [readFloat?_digits digits nonempty, count]
  · rw [count, point, readFloat?_point front (leading _ _ point) behind]
    simp
  · have refused : readFloat? t = none := by
      rw [point]
      exact readFloat?_points front (leading _ _ point) behind
    rw [refused]
    simp
    omega

/-- Digits without a sign are read as far as the range goes, with any number of leading zeros. -/
theorem readInteger?_digits (digits : AllDigits t) (nonempty : t ≠ []) : readInteger? t =
    if Nat.ofDigitChars 10 t 0 < 2 ^ 63 then some (Nat.ofDigitChars 10 t 0 : Int) else none := by
  have read := readNat?_eq digits nonempty
  generalize Nat.ofDigitChars 10 t 0 = n at read
  have inside : (some (n : Int)).filter
      (fun n => -Int.ofNat (twoTo 63) ≤ n && n < Int.ofNat (twoTo 63)) =
        if n < 2 ^ 63 then some (n : Int) else none := by
    rw [Option.filter_some]
    congr 1
    simp [twoTo]
  unfold readInteger?
  split
  · exact (digits.ne_sign.1 rfl).elim
  · exact (digits.ne_sign.2 rfl).elim
  · rw [read]
    exact inside

namespace Token

variable {digits unit : Text}

/-- A number with a unit or a point is a floating-point number. -/
theorem decodeNumber?_append (chars : ∀ c ∈ digits, isNumberChar c)
    (ending : unit = [] ∨ ∃ u, isUnitSuffix u ∧ unit = [u]) : decodeNumber? (digits ++ unit) =
      if unit ≠ [] ∨ '.' ∈ digits then (readFloat? digits).map .float
      else (readInteger? digits).map .integer := by
  rw [decodeNumber?, splitUnit_append chars ending]
  simp

theorem isUnitSuffix_iff {u : Char} : isUnitSuffix u ↔ u ∈ ['f', 'F', '°', 'º'] := by
  simp [isUnitSuffix, or_assoc]

/-- Every number of a line has a value, except that a floating-point number may have too many
points and a whole number may lie beyond the range. -/
theorem ofLine_number_decoded (line : Nat) (text : Text) {t : Token}
    (member : t ∈ (Token.ofLine line text).descendants) (kind : t.kind = .number) :
    ∃ digits unit, t.literal = digits ++ unit ∧
      (unit = [] ∨ ∃ u ∈ ['f', 'F', '°', 'º'], unit = [u]) ∧
      (∃ first ∈ digits.head?, first.isDigit) ∧ (∀ c ∈ digits, c.isDigit ∨ c = '.') ∧
      let whole := Nat.ofDigitChars 10 digits 0
      (∀ n, t.decoded? = some (.integer n) ↔
        unit = [] ∧ '.' ∉ digits ∧ whole ≤ 2 ^ 63 - 1 ∧ n = whole) ∧
      (∀ x, t.decoded? = some (.float x) ↔
        (unit ≠ [] ∨ '.' ∈ digits) ∧ digits.count '.' ≤ 1 ∧ readFloat? digits = some x) ∧
      (t.decoded? = none ↔
        2 ≤ digits.count '.' ∨ unit = [] ∧ '.' ∉ digits ∧ 2 ^ 63 - 1 < whole) ∧
      ((readFloat? digits).isSome ↔ digits.count '.' ≤ 1) := by
  have spelled : Kind.number.Spells t.literal :=
    kind ▸ (ScannedLine.conforms (mem_descendants_iff.1 member)).form.spelled (kind ▸ rfl)
  obtain ⟨digits, unit, literal, first, chars, ending⟩ := spelled.number_parts
  have decoded : t.decoded? = decodeNumber? (digits ++ unit) := by rw [decoded?, kind, literal]
  have read := readFloat?_isSome_iff chars first
  rw [decodeNumber?_append chars ending] at decoded
  refine ⟨digits, unit, literal, by simpa only [isUnitSuffix_iff] using ending, first,
    fun c member => by simpa [isNumberChar] using chars c member, ?_⟩
  intro whole
  by_cases floating : unit ≠ [] ∨ '.' ∈ digits
  · have excluded : ¬ (unit = [] ∧ '.' ∉ digits) := by tauto
    rw [if_pos floating] at decoded
    rw [decoded]
    refine ⟨fun n => ?_, fun x => ?_, ?_, read⟩
    · simp only [Option.map_eq_some_iff, reduceCtorEq, and_false, exists_false, false_iff]
      tauto
    · simp only [Option.map_eq_some_iff, Value.float.injEq, exists_eq_right, floating, true_and,
        iff_and_self]
      intro same
      exact read.1 (by rw [same]; rfl)
    · rw [Option.map_eq_none_iff, ← Option.not_isSome_iff_eq_none, read]
      constructor
      · intro several
        exact Or.inl (by omega)
      · rintro (several | ⟨unitless, pointless, -⟩)
        · omega
        · exact (excluded ⟨unitless, pointless⟩).elim
  · obtain ⟨unitless, pointless⟩ : unit = [] ∧ '.' ∉ digits := by tauto
    have plain : AllDigits digits := by
      rcases exists_point chars with plain | ⟨front, rest, rfl, -⟩
      · exact plain
      · simp at pointless
    have nonempty : digits ≠ [] := by
      rintro rfl
      obtain ⟨c, head, -⟩ := first
      cases head
    rw [if_neg floating, readInteger?_digits plain nonempty] at decoded
    rw [decoded]
    refine ⟨fun n => ?_, fun x => ?_, ?_, read⟩
    · rcases Nat.lt_or_ge whole (2 ^ 63) with inside | beyond
      · rw [if_pos inside]
        simp only [Option.map_some, Option.some.injEq, Value.integer.injEq, unitless, pointless,
          not_false_eq_true, true_and]
        omega
      · rw [if_neg (by omega)]
        simp only [Option.map_none, reduceCtorEq, false_iff]
        omega
    · split <;> simp [floating]
    · rw [plain.count_point]
      split <;> simp [unitless, pointless] <;> omega

/-- The greatest whole number, with zeros in front of it. -/
theorem ofLine_number_decoded_greatest :
    let t : Token := ⟨0, 1, "009223372036854775807".toList, .number, [], none⟩
    t ∈ (Token.ofLine 0 "-009223372036854775807".toList).descendants ∧
      t.decoded? = some (.integer 9223372036854775807) := by
  intro t
  have member : t ∈ (Token.ofLine 0 "-009223372036854775807".toList).descendants :=
    mem_descendants_iff.2 (by decide +kernel)
  obtain ⟨digits, unit, literal, ending, -, -, whole, -⟩ := ofLine_number_decoded 0 _ member rfl
  refine ⟨member, ?_⟩
  rcases ending with rfl | ⟨u, suffix, rfl⟩
  · rw [List.append_nil] at literal
    subst literal
    exact (whole _).2 ⟨rfl, by decide +kernel, by decide +kernel, by decide +kernel⟩
  · have last : t.literal.getLast? = some u := by
      rw [literal]
      exact List.getLast?_concat
    obtain rfl : '7' = u := Option.some.inj last
    exact absurd suffix (by decide)

end Token
end LineTree
