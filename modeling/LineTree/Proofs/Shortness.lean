import LineTree.Proofs.Rounding

/-!
# Shortest digits read back

The digits chosen for a finite value lie in its rounding interval. The search for them never fails:
with seventeen digits the decimal numbers are closer together than the values, so one of the two
neighbours of the exact value is in the interval. Main statements: `RoundingInterval.floor_bounds`,
`Binary64.exists_nearestAt?`, `Binary64.near_shortest`.
-/
namespace LineTree

/-- The number that the digits stand for. -/
def Significant.value (s : Significant) : ℚ := s.digits * 10 ^ s.exponent

theorem Significant.value_shorten (s : Significant) : s.shorten.value = s.value := by
  unfold shorten
  split
  · next tens =>
    have split : s.digits = 10 * (s.digits / 10) := by omega
    have digits : (s.digits : ℚ) = 10 * (s.digits / 10 : Nat) := by exact_mod_cast split
    rw [value, value, digits, zpow_add_one₀ (by norm_num)]
    ring
  · rfl

namespace RoundingInterval

variable {i : RoundingInterval} {place : Int}

/-- The exact value lies between two neighbours on the grid of a place. -/
theorem floor_bounds (i : RoundingInterval) (place : Int) :
    let floor := i.middle * i.multiplier place / i.divisor place
    (floor : ℚ) * 10 ^ place ≤ i.middle * 2 ^ i.exponent ∧
      (i.middle : ℚ) * 2 ^ i.exponent < (floor + 1) * 10 ^ place := by
  intro floor
  have positive : 0 < i.divisor place :=
    Nat.mul_pos (Nat.pow_pos (by decide)) (Nat.pow_pos (by decide))
  constructor
  · exact divisor_le_multiplier.1 (Nat.div_mul_le_self _ _)
  · have above : i.middle * i.multiplier place < (floor + 1) * i.divisor place := by
      rw [Nat.mul_comm (floor + 1)]
      exact Nat.lt_mul_div_succ _ positive
    have above := multiplier_lt_divisor.1 above
    push_cast at above
    exact above

theorem contains_of_nearestAt? {tie : Tie} {s : Significant}
    (found : i.nearestAt? tie place = some s) : i.Contains s.value := by
  unfold nearestAt? at found
  dsimp only at found
  split at found
  · next low high =>
    obtain rfl := Option.some.inj found
    rw [Significant.value]
    dsimp only
    split
    · exact holds_iff.1 low
    · exact holds_iff.1 high
  · next low _ =>
    obtain rfl := Option.some.inj found
    exact holds_iff.1 low
  · next _ high =>
    obtain rfl := Option.some.inj found
    exact holds_iff.1 high
  · cases found

/-- A neighbour of the exact value that lies in the interval is found. -/
theorem isSome_nearestAt? (tie : Tie)
    (inside : i.Contains ((i.middle * i.multiplier place / i.divisor place : Nat) * 10 ^ place) ∨
      i.Contains ((i.middle * i.multiplier place / i.divisor place + 1 : Nat) * 10 ^ place)) :
    (i.nearestAt? tie place).isSome := by
  rw [← holds_iff, ← holds_iff] at inside
  unfold nearestAt?
  dsimp only
  rcases inside with low | high
  · rw [low]
    cases i.holds place (i.middle * i.multiplier place / i.divisor place + 1) <;> rfl
  · rw [high]
    cases i.holds place (i.middle * i.multiplier place / i.divisor place) <;> rfl

end RoundingInterval

namespace Binary64

variable {m : Nat} {e : Int}

/-- The leading place is that of the leading decimal digit. -/
theorem leadingPlace_bounds (h : Canonical m e) :
    (10 : ℚ) ^ (roundingInterval m e).leadingPlace ≤ m * 2 ^ e ∧
      (m : ℚ) * 2 ^ e < 10 ^ ((roundingInterval m e).leadingPlace + 1) := by
  obtain ⟨below, above⟩ := (roundingInterval m e).floor_bounds (-350)
  rw [middle_eq] at below above
  unfold RoundingInterval.leadingPlace
  generalize (roundingInterval m e).middle * (roundingInterval m e).multiplier (-350) /
    (roundingInterval m e).divisor (-350) = n at *
  have positive : 0 < n := by
    rcases Nat.eq_zero_or_pos n with rfl | positive
    · have tiny : (10 : ℚ) ^ (-350 : Int) < 2 ^ (-1074 : Int) := by
        rw [zpow_neg, zpow_neg, inv_lt_inv₀ (by positivity) (by positivity)]
        exact_mod_cast (by decide +kernel : 2 ^ 1074 < 10 ^ 350)
      have least : (2 : ℚ) ^ (-1074 : Int) ≤ 2 ^ e := zpow_le_zpow_right₀ (by norm_num) h.least
      have one := h.one_le_cast
      have unit : (0 : ℚ) < 2 ^ e := by positivity
      rw [Nat.cast_zero, zero_add, one_mul] at above
      have below := (tiny.trans_le least).trans_le (le_mul_of_one_le_left unit.le one)
      exact absurd above below.not_gt
    · exact positive
  constructor
  · have exponent : ((Nat.toDigits 10 n).length : Int) - 351 =
        -350 + (Nat.toDigits 10 n).length - 1 := by omega
    rw [exponent]
    exact (reach_le positive).trans below
  · have exponent : ((Nat.toDigits 10 n).length : Int) - 351 + 1 =
        (Nat.toDigits 10 n).length + -350 := by omega
    have bound : n < 10 ^ (Nat.toDigits 10 n).length :=
      (Nat.length_toDigits_le_iff (by decide) Nat.length_toDigits_pos).1 (Nat.le_refl _)
    have bound : (n : ℚ) + 1 ≤ 10 ^ (Nat.toDigits 10 n).length := by exact_mod_cast bound
    rw [exponent, zpow_add₀ (by norm_num), zpow_natCast]
    exact above.trans_le (mul_le_mul_of_nonneg_right bound (by positivity))

/-- A number less than half a unit away rounds to the value, unless it is below where the values are
twice as dense. -/
theorem near_of_lt {x : ℚ} (low : ((m : ℚ) - 1 / 2) * 2 ^ e < x)
    (high : x < ((m : ℚ) + 1 / 2) * 2 ^ e)
    (power : m = twoTo 52 → -1074 < e → (m : ℚ) * 2 ^ e ≤ x) : Near m e x where
  low := low.le
  high := high.le
  odd _ := ⟨low, high⟩
  power size least := by
    have unit : (0 : ℚ) < 2 ^ e := by positivity
    linarith [power size least]

/-- On a grid this fine one of the two neighbours of the value rounds to it. -/
theorem near_neighbour (h : Canonical m e) {grid : ℚ} {floor : Nat} (positive : 0 < grid)
    (fine : grid * 10 ^ 16 ≤ m * 2 ^ e) (below : floor * grid ≤ m * 2 ^ e)
    (above : (m : ℚ) * 2 ^ e < (floor + 1) * grid) :
    Near m e (floor * grid) ∨ Near m e ((floor + 1) * grid) := by
  have size := h.cast_succ_le
  generalize hunit : (2 : ℚ) ^ e = unit at *
  have unit_pos : 0 < unit := by
    rw [← hunit]
    positivity
  have most : (m : ℚ) * unit ≤ (2 ^ 53 - 1) * unit := by
    gcongr
    linarith
  by_cases dense : m = twoTo 52 ∧ -1074 < e
  · -- Only upwards the values are as far apart as the exponent says.
    have power : (m : ℚ) = 2 ^ 52 := by rw [dense.1, cast_twoTo]
    rw [power] at fine
    right
    apply near_of_lt
    · rw [hunit]
      linarith
    · rw [hunit]
      linarith
    · intro _ _
      rw [hunit]
      exact above.le
  · rcases lt_or_ge ((m : ℚ) * unit - 1 / 2 * unit) (floor * grid) with close | far
    · left
      refine near_of_lt ?_ ?_ fun size least => (dense ⟨size, least⟩).elim
      · rw [hunit]
        linarith
      · rw [hunit]
        linarith
    · right
      refine near_of_lt ?_ ?_ fun size least => (dense ⟨size, least⟩).elim
      · rw [hunit]
        linarith
      · rw [hunit]
        linarith

/-- With seventeen digits there is a decimal number in the interval. -/
theorem exists_nearestAt? (h : Canonical m e) (tie : Tie) : ∃ s,
    (roundingInterval m e).nearestAt? tie ((roundingInterval m e).leadingPlace - 16) = some s := by
  rw [← Option.isSome_iff_exists]
  obtain ⟨lead, -⟩ := leadingPlace_bounds h
  obtain ⟨below, above⟩ :=
    (roundingInterval m e).floor_bounds ((roundingInterval m e).leadingPlace - 16)
  rw [middle_eq] at below above
  have fine : (10 : ℚ) ^ ((roundingInterval m e).leadingPlace - 16) * 10 ^ 16 ≤ m * 2 ^ e := by
    rw [← zpow_natCast, ← zpow_add₀ (by norm_num)]
    exact (congrArg ((10 : ℚ) ^ ·) (Int.sub_add_cancel _ 16)).trans_le lead
  apply RoundingInterval.isSome_nearestAt?
  rw [near_iff h.positive, near_iff h.positive, Nat.cast_succ]
  exact near_neighbour h (by positivity) fine below above

theorem near_shortest (h : Canonical m e) (tie : Tie) : Near m e (shortest m e tie).value := by
  rw [← near_iff h.positive]
  unfold shortest
  dsimp only
  split
  · next s found =>
    obtain ⟨n, -, found⟩ := List.exists_of_findSome?_eq_some found
    rw [Significant.value_shorten]
    exact RoundingInterval.contains_of_nearestAt? found
  · next missed =>
    obtain ⟨s, found⟩ := exists_nearestAt? h tie
    have nothing := List.findSome?_eq_none_iff.1 missed 16 (by simp)
    cases found.symm.trans nothing

end Binary64
end LineTree
