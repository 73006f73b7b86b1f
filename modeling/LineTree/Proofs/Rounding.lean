import LineTree.Number.Shortest
import Mathlib.Algebra.Order.Field.Power
import Mathlib.Tactic.Linarith
import Mathlib.Tactic.LinearCombination
import Mathlib.Tactic.NormNum
import Mathlib.Tactic.Positivity
import Mathlib.Tactic.Ring

/-!
# Decimal numbers round to the right value

A decimal number in the rounding interval of a finite value is read as that value: the exponent
found for it is that of the value, or one less if it lies just below a power of two, and then the
significand is rounded up to that power. Main statements: `Binary64.nearestMagnitude_eq`,
`Binary64.ofDecimal_eq`.
-/
namespace LineTree

theorem cast_twoTo (n : Nat) : ((twoTo n : Nat) : ℚ) = 2 ^ n := Nat.cast_pow 2 n

theorem cast_tenTo (n : Nat) : ((tenTo n : Nat) : ℚ) = 10 ^ n := Nat.cast_pow 10 n

/-- A power with an exponent of either sign, as a quotient of two natural powers. -/
theorem pow_toNat_eq {b : ℚ} (nonzero : b ≠ 0) (k : Int) :
    b ^ k.toNat = b ^ k * b ^ (-k).toNat := by
  rw [← zpow_natCast, ← zpow_natCast, ← zpow_add₀ nonzero]
  congr 1
  omega

theorem two_zpow_add (e k : Int) : (2 : ℚ) ^ (e + k) = 2 ^ k * 2 ^ e := by
  rw [zpow_add₀ (by norm_num), mul_comm]

theorem two_zpow_sub_two (e : Int) : (2 : ℚ) ^ (e - 2) = 2 ^ e / 4 := by
  rw [zpow_sub₀ (by norm_num)]
  norm_num

namespace RoundingInterval

variable (i : RoundingInterval)

/-- The number lies in the interval. -/
def Contains (x : ℚ) : Prop :=
  let low : ℚ := i.low * 2 ^ i.exponent
  let high : ℚ := i.high * 2 ^ i.exponent
  if i.closed then low ≤ x ∧ x ≤ high else low < x ∧ x < high

/-- The common denominator of the numbers that are compared at a place. -/
def scale (place : Int) : ℚ := 2 ^ (-i.exponent).toNat * 10 ^ (-place).toNat

theorem scale_pos (place : Int) : 0 < i.scale place := by
  unfold scale
  positivity

theorem cast_multiplier (n : Nat) (place : Int) :
    ((n * i.multiplier place : Nat) : ℚ) = n * 2 ^ i.exponent * i.scale place := by
  rw [Nat.cast_mul, multiplier, Nat.cast_mul, cast_twoTo, cast_tenTo,
    pow_toNat_eq (by norm_num) i.exponent, scale]
  ring

theorem cast_divisor (n : Nat) (place : Int) :
    ((n * i.divisor place : Nat) : ℚ) = n * 10 ^ place * i.scale place := by
  rw [Nat.cast_mul, divisor, Nat.cast_mul, cast_twoTo, cast_tenTo,
    pow_toNat_eq (by norm_num) place, scale]
  ring

variable {i}

theorem multiplier_le_divisor {m n : Nat} {place : Int} :
    m * i.multiplier place ≤ n * i.divisor place ↔
      (m : ℚ) * 2 ^ i.exponent ≤ n * 10 ^ place := by
  rw [← Nat.cast_le (α := ℚ), cast_multiplier, cast_divisor,
    mul_le_mul_iff_of_pos_right (i.scale_pos place)]

theorem divisor_le_multiplier {m n : Nat} {place : Int} :
    n * i.divisor place ≤ m * i.multiplier place ↔
      (n : ℚ) * 10 ^ place ≤ m * 2 ^ i.exponent := by
  rw [← Nat.cast_le (α := ℚ), cast_multiplier, cast_divisor,
    mul_le_mul_iff_of_pos_right (i.scale_pos place)]

theorem multiplier_lt_divisor {m n : Nat} {place : Int} :
    m * i.multiplier place < n * i.divisor place ↔
      (m : ℚ) * 2 ^ i.exponent < n * 10 ^ place := by
  rw [← not_le, divisor_le_multiplier, not_le]

theorem divisor_lt_multiplier {m n : Nat} {place : Int} :
    n * i.divisor place < m * i.multiplier place ↔
      (n : ℚ) * 10 ^ place < m * 2 ^ i.exponent := by
  rw [← not_le, multiplier_le_divisor, not_le]

/-- The test in whole numbers decides whether a decimal number lies in the interval. -/
theorem holds_iff {place : Int} {digits : Nat} :
    i.holds place digits = true ↔ i.Contains (digits * 10 ^ place) := by
  unfold holds Contains
  by_cases closed : i.closed = true
  · simp [closed, multiplier_le_divisor, divisor_le_multiplier]
  · simp [closed, multiplier_lt_divisor, divisor_lt_multiplier]

theorem Contains.bounds {x : ℚ} (h : i.Contains x) :
    (i.low : ℚ) * 2 ^ i.exponent ≤ x ∧ x ≤ i.high * 2 ^ i.exponent := by
  unfold Contains at h
  split at h
  · exact h
  · exact ⟨h.1.le, h.2.le⟩

end RoundingInterval

namespace Binary64

/-- The nearest natural number, of which no other one is as near unless it is odd. -/
theorem nearestQuotient_eq {num den n : Nat} (positive : 0 < den)
    (low : 2 * (n * den) ≤ 2 * num + den) (high : 2 * num ≤ 2 * (n * den) + den)
    (odd : n % 2 = 1 → 2 * (n * den) < 2 * num + den ∧ 2 * num < 2 * (n * den) + den) :
    nearestQuotient num den = n := by
  have split : num = num / den * den + num % den := by
    rw [Nat.mul_comm]
    exact (Nat.div_add_mod num den).symm
  have small : num % den < den := Nat.mod_lt num positive
  unfold nearestQuotient
  dsimp only
  generalize num / den = q at *
  generalize num % den = r at *
  subst split
  -- The quotient is rounded to one of its two neighbours.
  have neighbour : n = q ∨ n = q + 1 := by
    rcases Nat.lt_or_ge n q with below | above
    · have step : (n + 1) * den ≤ q * den := Nat.mul_le_mul_right den below
      rw [Nat.succ_mul] at step
      omega
    · rcases Nat.lt_or_ge (q + 1) n with beyond | near
      · have step : (q + 2) * den ≤ n * den := Nat.mul_le_mul_right den beyond
        rw [Nat.add_mul] at step
        omega
      · omega
  rcases neighbour with rfl | rfl
  · split
    · rfl
    · split <;> omega
  · have product : (q + 1) * den = q * den + den := Nat.succ_mul q den
    rw [product] at low high odd
    split
    · omega
    · split <;> omega

section Logarithm

variable {num den : Nat}

/-- The test in whole numbers compares the quotient with a power of two. -/
theorem twoTo_le_iff (positive : 0 < den) (k : Int) :
    den * twoTo k.toNat ≤ num * twoTo (-k).toNat ↔ (2 : ℚ) ^ k ≤ num / den := by
  have cut : (0 : ℚ) < 2 ^ (-k).toNat := by positivity
  have divisor : (0 : ℚ) < den := Nat.cast_pos.2 positive
  rw [← Nat.cast_le (α := ℚ), Nat.cast_mul, Nat.cast_mul, cast_twoTo, cast_twoTo,
    pow_toNat_eq (by norm_num) k, ← mul_assoc, mul_le_mul_iff_of_pos_right cut,
    le_div_iff₀ divisor, mul_comm]

/-- The numbers of digits give the exponent, or one more. -/
theorem log2_bounds (hnum : 0 < num) (hden : 0 < den) :
    (2 : ℚ) ^ ((num.log2 : Int) - den.log2 - 1) ≤ num / den ∧
      (num : ℚ) / den < 2 ^ ((num.log2 : Int) - den.log2 + 1) := by
  have two : (2 : ℚ) ≠ 0 := by norm_num
  have divisor : (0 : ℚ) < den := Nat.cast_pos.2 hden
  have numLow : (2 : ℚ) ^ (num.log2 : Int) ≤ num := by
    exact_mod_cast Nat.log2_self_le hnum.ne'
  have numHigh : (num : ℚ) < 2 ^ ((num.log2 : Int) + 1) := by
    exact_mod_cast Nat.lt_log2_self
  have denLow : (2 : ℚ) ^ (den.log2 : Int) ≤ den := by
    exact_mod_cast Nat.log2_self_le hden.ne'
  have denHigh : (den : ℚ) < 2 ^ ((den.log2 : Int) + 1) := by
    exact_mod_cast Nat.lt_log2_self
  constructor
  · rw [le_div_iff₀ divisor]
    calc (2 : ℚ) ^ ((num.log2 : Int) - den.log2 - 1) * den
        ≤ 2 ^ ((num.log2 : Int) - den.log2 - 1) * 2 ^ ((den.log2 : Int) + 1) := by gcongr
      _ = 2 ^ (num.log2 : Int) := by
        rw [← zpow_add₀ two]
        congr 1
        omega
      _ ≤ num := numLow
  · rw [div_lt_iff₀ divisor]
    calc (num : ℚ) < 2 ^ ((num.log2 : Int) + 1) := numHigh
      _ = 2 ^ ((num.log2 : Int) - den.log2 + 1) * 2 ^ (den.log2 : Int) := by
        rw [← zpow_add₀ two]
        congr 1
        omega
      _ ≤ 2 ^ ((num.log2 : Int) - den.log2 + 1) * den := by gcongr

theorem floorLog2_bounds (hnum : 0 < num) (hden : 0 < den) :
    (2 : ℚ) ^ floorLog2 num den ≤ num / den ∧
      (num : ℚ) / den < 2 ^ (floorLog2 num den + 1) := by
  obtain ⟨low, high⟩ := log2_bounds hnum hden
  unfold floorLog2
  dsimp only
  generalize (num.log2 : Int) - den.log2 = guess at low high ⊢
  split
  · next reached => exact ⟨(twoTo_le_iff hden guess).1 reached, high⟩
  · next missed =>
    rw [twoTo_le_iff hden, not_le] at missed
    rw [Int.sub_add_cancel]
    exact ⟨low, missed⟩

theorem le_floorLog2_iff (hnum : 0 < num) (hden : 0 < den) {k : Int} :
    k ≤ floorLog2 num den ↔ (2 : ℚ) ^ k ≤ num / den := by
  have two : (1 : ℚ) < 2 := by norm_num
  obtain ⟨low, high⟩ := floorLog2_bounds hnum hden
  constructor
  · intro below
    exact (zpow_le_zpow_right₀ two.le below).trans low
  · intro reached
    rw [← Int.lt_add_one_iff, ← zpow_lt_zpow_iff_right₀ two]
    exact reached.trans_lt high

end Logarithm

/-- The significand at a given exponent. -/
theorem nearestQuotient_scaled {num den n : Nat} {e : Int} (positive : 0 < den)
    (low : ((n : ℚ) - 1 / 2) * 2 ^ e ≤ num / den) (high : (num : ℚ) / den ≤ (n + 1 / 2) * 2 ^ e)
    (odd : n % 2 = 1 →
      ((n : ℚ) - 1 / 2) * 2 ^ e < num / den ∧ (num : ℚ) / den < (n + 1 / 2) * 2 ^ e) :
    nearestQuotient (num * twoTo (-e).toNat) (den * twoTo e.toNat) = n := by
  have divisor : (0 : ℚ) < den := Nat.cast_pos.2 positive
  have cut : (0 : ℚ) < 2 ^ (-e).toNat := by positivity
  have power := pow_toNat_eq (b := 2) (by norm_num) e
  rw [le_div_iff₀ divisor] at low
  rw [div_le_iff₀ divisor] at high
  rw [lt_div_iff₀ divisor, div_lt_iff₀ divisor] at odd
  apply nearestQuotient_eq
  · exact Nat.mul_pos positive (Nat.pow_pos (by decide))
  · rw [← Nat.cast_le (α := ℚ)]
    push_cast
    rw [cast_twoTo, cast_twoTo, power]
    linear_combination 2 * (2 : ℚ) ^ (-e).toNat * low
  · rw [← Nat.cast_le (α := ℚ)]
    push_cast
    rw [cast_twoTo, cast_twoTo, power]
    linear_combination 2 * (2 : ℚ) ^ (-e).toNat * high
  · intro uneven
    obtain ⟨below, above⟩ := odd uneven
    rw [← Nat.cast_lt (α := ℚ), ← Nat.cast_lt (α := ℚ)]
    push_cast
    rw [cast_twoTo, cast_twoTo, power]
    constructor
    · linear_combination 2 * (2 : ℚ) ^ (-e).toNat * below
    · linear_combination 2 * (2 : ℚ) ^ (-e).toNat * above

/-- Significand and exponent of a positive finite value. -/
structure Canonical (m : Nat) (e : Int) : Prop where
  positive : 0 < m
  below : m < twoTo 53
  least : -1074 ≤ e
  greatest : e ≤ 971
  normal : -1074 < e → twoTo 52 ≤ m

theorem Canonical.one_le_cast {m : Nat} {e : Int} (h : Canonical m e) : (1 : ℚ) ≤ m := by
  exact_mod_cast h.positive

theorem Canonical.cast_succ_le {m : Nat} {e : Int} (h : Canonical m e) : (m : ℚ) + 1 ≤ 2 ^ 53 := by
  have below := h.below
  exact_mod_cast below

/-- The number rounds to `m * 2 ^ e`: it is as near as half a unit of the last digit, or a quarter
where the values below are twice as dense. Only an even significand takes the ends. -/
structure Near (m : Nat) (e : Int) (x : ℚ) : Prop where
  low : ((m : ℚ) - 1 / 2) * 2 ^ e ≤ x
  high : x ≤ ((m : ℚ) + 1 / 2) * 2 ^ e
  odd : m % 2 = 1 → ((m : ℚ) - 1 / 2) * 2 ^ e < x ∧ x < ((m : ℚ) + 1 / 2) * 2 ^ e
  power : m = twoTo 52 → -1074 < e → ((m : ℚ) - 1 / 4) * 2 ^ e ≤ x

section Near

variable {m : Nat} {e : Int} {x : ℚ}

/-- The numbers of a rounding interval count quarters of a unit. -/
theorem cast_quarters {n : Nat} {q : ℚ} (quarters : (n : ℚ) = 4 * q) :
    (n : ℚ) * 2 ^ (roundingInterval m e).exponent = q * 2 ^ e := by
  have exponent : (roundingInterval m e).exponent = e - 2 := rfl
  rw [exponent, two_zpow_sub_two, quarters]
  ring

theorem high_eq (m : Nat) (e : Int) :
    ((roundingInterval m e).high : ℚ) * 2 ^ (roundingInterval m e).exponent =
      (m + 1 / 2) * 2 ^ e := by
  apply cast_quarters
  rw [roundingInterval]
  push_cast
  ring

theorem middle_eq (m : Nat) (e : Int) :
    ((roundingInterval m e).middle : ℚ) * 2 ^ (roundingInterval m e).exponent = m * 2 ^ e := by
  apply cast_quarters
  rw [roundingInterval]
  push_cast
  ring

theorem low_eq (positive : 0 < m) (e : Int) :
    ((roundingInterval m e).low : ℚ) * 2 ^ (roundingInterval m e).exponent =
      (if m = twoTo 52 ∧ -1074 < e then (m : ℚ) - 1 / 4 else m - 1 / 2) * 2 ^ e := by
  apply cast_quarters
  rw [roundingInterval]
  dsimp only
  split
  · rw [Nat.cast_sub (by omega)]
    push_cast
    ring
  · rw [Nat.cast_sub (by omega)]
    push_cast
    ring

/-- A power of two is even, so its interval has its ends. -/
theorem even_of_dense (dense : m = twoTo 52 ∧ -1074 < e) : m % 2 = 0 := by
  rw [dense.1]
  decide

theorem near_iff (positive : 0 < m) : (roundingInterval m e).Contains x ↔ Near m e x := by
  have unit : (0 : ℚ) < 2 ^ e := by positivity
  have closed : (roundingInterval m e).closed = decide (m % 2 = 0) := rfl
  unfold RoundingInterval.Contains
  dsimp only
  rw [high_eq, low_eq positive, closed]
  by_cases dense : m = twoTo 52 ∧ -1074 < e
  · rw [if_pos dense, if_pos (decide_eq_true (even_of_dense dense))]
    constructor
    · rintro ⟨low, high⟩
      have below : ((m : ℚ) - 1 / 2) * 2 ^ e ≤ x := by linarith
      have even := even_of_dense dense
      exact ⟨below, high, fun odd => by omega, fun _ _ => low⟩
    · intro near
      exact ⟨near.power dense.1 dense.2, near.high⟩
  · have plain : m = twoTo 52 → -1074 < e → ((m : ℚ) - 1 / 4) * 2 ^ e ≤ x :=
      fun power least => (dense ⟨power, least⟩).elim
    rw [if_neg dense]
    by_cases even : m % 2 = 0
    · rw [if_pos (decide_eq_true even)]
      constructor
      · rintro ⟨low, high⟩
        exact ⟨low, high, fun odd => by omega, plain⟩
      · intro near
        exact ⟨near.low, near.high⟩
    · rw [if_neg (by simpa using even)]
      constructor
      · rintro ⟨low, high⟩
        exact ⟨low.le, high.le, fun _ => ⟨low, high⟩, plain⟩
      · intro near
        exact near.odd (by omega)

/-- No finite value is below the least subnormal one. -/
theorem Near.least (near : Near m e x) (h : Canonical m e) : (2 : ℚ) ^ (-1075 : Int) ≤ x := by
  have positive := h.one_le_cast
  have exponent : (2 : ℚ) ^ (-1074 : Int) ≤ 2 ^ e := zpow_le_zpow_right₀ (by norm_num) h.least
  have half : (2 : ℚ) ^ (-1075 : Int) = 2 ^ (-1 : Int) * 2 ^ (-1074 : Int) := by
    rw [← two_zpow_add]
    rfl
  rw [zpow_neg_one, ← one_div] at half
  calc (2 : ℚ) ^ (-1075 : Int) = 1 / 2 * 2 ^ (-1074 : Int) := half
    _ ≤ (m - 1 / 2) * 2 ^ e := mul_le_mul (by linarith) exponent (by positivity) (by linarith)
    _ ≤ x := near.low

theorem Near.lt (near : Near m e x) (h : Canonical m e) : x < 2 ^ (e + 53) := by
  have below := h.cast_succ_le
  calc x ≤ (m + 1 / 2) * 2 ^ e := near.high
    _ < 2 ^ 53 * 2 ^ e := by
      gcongr
      linarith
    _ = 2 ^ (e + 53) := (two_zpow_add e 53).symm

/-- Only a number that rounds up to a power of two is below it. -/
theorem Near.eq_twoTo (near : Near m e x) (h : Canonical m e) (least : -1074 < e)
    (under : x < 2 ^ (e + 52)) : m = twoTo 52 := by
  have unit : (0 : ℚ) < 2 ^ e := by positivity
  have below : ((m : ℚ) - 1 / 2) * 2 ^ e < 2 ^ 52 * 2 ^ e :=
    (near.low.trans_lt under).trans_eq (two_zpow_add e 52)
  rw [mul_lt_mul_iff_of_pos_right unit] at below
  have below : (m : ℚ) < (twoTo 52 + 1 : Nat) := by
    rw [Nat.cast_succ, cast_twoTo]
    linarith
  have below : m < twoTo 52 + 1 := by exact_mod_cast below
  exact Nat.le_antisymm (Nat.le_of_lt_succ below) (h.normal least)

variable {num den : Nat}

/-- Just below a power of two the exponent is one less, and the significand is rounded up to the
power. It carries into the exponent field. -/
theorem nearestMagnitude_below_power (least : -1074 < e) (hnum : 0 < num) (hden : 0 < den)
    (close : ((2 : ℚ) ^ 52 - 1 / 4) * 2 ^ e ≤ num / den) (under : (num : ℚ) / den < 2 ^ (e + 52)) :
    nearestMagnitude num den = (e + 1074).toNat * twoTo 52 + twoTo 52 := by
  have exponent : floorLog2 num den = e + 51 := by
    have below : ¬e + 52 ≤ floorLog2 num den := by
      rw [le_floorLog2_iff hnum hden, not_le]
      exact under
    have above : e + 51 ≤ floorLog2 num den := by
      rw [le_floorLog2_iff hnum hden, two_zpow_add]
      refine le_trans ?_ close
      gcongr
      norm_num
    omega
  have places : max (e + 51 - 52) (-1074) = e - 1 := by omega
  have rounded : nearestQuotient (num * twoTo (-(e - 1)).toNat) (den * twoTo (e - 1).toNat) =
      twoTo 53 := by
    have half : (2 : ℚ) ^ e = 2 * 2 ^ (e - 1) := by
      rw [← zpow_one_add₀ (by norm_num), add_sub_cancel]
    have under := under.trans_eq (two_zpow_add e 52)
    rw [half] at close under
    norm_num at under
    apply nearestQuotient_scaled hden
    · rw [cast_twoTo]
      linarith
    · rw [cast_twoTo]
      linarith
    · intro odd
      exact absurd odd (by decide)
  have carry : (e + 1074).toNat = (e - 1 + 1074).toNat + 1 := by omega
  have double : twoTo 53 = twoTo 52 + twoTo 52 := by decide
  unfold nearestMagnitude
  dsimp only
  rw [exponent, places, rounded, carry, Nat.succ_mul, double, Nat.add_assoc]

/-- A quotient that rounds to a value has the fields of that value. -/
theorem nearestMagnitude_eq (h : Canonical m e) (hden : 0 < den) (near : Near m e (num / den)) :
    nearestMagnitude num den = (e + 1074).toNat * twoTo 52 + m := by
  have hnum : 0 < num := by
    have positive : (0 : ℚ) < num / den := lt_of_lt_of_le (by positivity) (near.least h)
    rcases Nat.eq_zero_or_pos num with rfl | nonzero
    · simp at positive
    · exact nonzero
  by_cases edge : -1074 < e ∧ (num : ℚ) / den < 2 ^ (e + 52)
  · obtain ⟨least, under⟩ := edge
    have power := near.eq_twoTo h least under
    have close := near.power power least
    rw [power, cast_twoTo] at close
    rw [power]
    exact nearestMagnitude_below_power least hnum hden close under
  · have places : max (floorLog2 num den - 52) (-1074) = e := by
      have least := h.least
      have above : ¬e + 53 ≤ floorLog2 num den := by
        rw [le_floorLog2_iff hnum hden, not_le]
        exact near.lt h
      by_cases lowest : -1074 < e
      · have reached : e + 52 ≤ floorLog2 num den := by
          rw [le_floorLog2_iff hnum hden]
          exact not_lt.1 fun under => edge ⟨lowest, under⟩
        omega
      · omega
    unfold nearestMagnitude
    dsimp only
    rw [places, nearestQuotient_scaled hden near.low near.high near.odd]

end Near

/-- The fields of a finite value are those of its significand and exponent. -/
theorem magnitude_of_size {x : Binary64} {m : Nat} {e : Int} (h : x.size = .finite m e) :
    x.magnitude.val = (e + 1074).toNat * twoTo 52 + m ∧ x.magnitude.val < infinityMagnitude ∧
      (m = 0 → e = -1074) ∧ (0 < m → Canonical m e) := by
  obtain ⟨negative, magnitude, bound⟩ := x
  have fields := Nat.div_add_mod magnitude (twoTo 52)
  have small : magnitude % twoTo 52 < twoTo 52 := Nat.mod_lt magnitude (by decide)
  have top : twoTo 63 = 2048 * twoTo 52 := by decide
  have double : twoTo 53 = twoTo 52 + twoTo 52 := by decide
  have infinite : infinityMagnitude = 2047 * twoTo 52 := by decide
  have field : magnitude / twoTo 52 < 2048 := by
    rw [Nat.div_lt_iff_lt_mul (by decide), ← top]
    exact bound
  unfold size at h
  dsimp only at h ⊢
  generalize magnitude / twoTo 52 = q at *
  generalize magnitude % twoTo 52 = r at *
  generalize hunit : twoTo 52 = unit at *
  subst fields
  split at h
  · split at h <;> cases h
  · next finite =>
    split at h
    · next lowest =>
      obtain ⟨rfl, rfl⟩ := Size.finite.inj h
      subst lowest
      refine ⟨by simp, by omega, fun _ => rfl, fun positive => ?_⟩
      exact ⟨positive, by omega, by omega, by omega, fun above => by omega⟩
    · next normal =>
      obtain ⟨rfl, rfl⟩ := Size.finite.inj h
      obtain ⟨p, rfl⟩ : ∃ p, q = p + 1 := ⟨q - 1, by omega⟩
      rw [Int.ofNat_eq_natCast]
      have exponent : (((p + 1 : Nat) : Int) - 1075 + 1074).toNat = p := by omega
      have bound : unit * (p + 1) ≤ unit * 2046 := Nat.mul_le_mul_left unit (by omega)
      have product : unit * (p + 1) = p * unit + unit := by
        rw [Nat.mul_succ, Nat.mul_comm]
      refine ⟨?_, by omega, fun none => by omega, fun positive => ?_⟩
      · rw [exponent]
        omega
      · exact ⟨positive, by omega, by omega, by omega, fun _ => by omega⟩

section Reach

variable {digits : Nat} {place : Int}

/-- The place in front of the leading digit bounds the number. -/
theorem lt_reach (digits : Nat) (place : Int) :
    (digits : ℚ) * 10 ^ place < 10 ^ (place + (Nat.toDigits 10 digits).length) := by
  have bound : digits < 10 ^ (Nat.toDigits 10 digits).length :=
    (Nat.length_toDigits_le_iff (by decide) Nat.length_toDigits_pos).1 (Nat.le_refl _)
  have bound : (digits : ℚ) < 10 ^ (Nat.toDigits 10 digits).length := by exact_mod_cast bound
  rw [zpow_add₀ (by norm_num), zpow_natCast, mul_comm]
  gcongr

theorem reach_le (positive : 0 < digits) :
    (10 : ℚ) ^ (place + (Nat.toDigits 10 digits).length - 1) ≤ digits * 10 ^ place := by
  have some_digit : 0 < (Nat.toDigits 10 digits).length := Nat.length_toDigits_pos
  obtain ⟨n, length⟩ := Nat.exists_eq_succ_of_ne_zero some_digit.ne'
  have bound : 10 ^ n ≤ digits := by
    rcases Nat.eq_zero_or_pos n with rfl | several
    · exact positive
    · rw [← Nat.not_lt, ← Nat.length_toDigits_le_iff (by decide) several, length]
      omega
  have bound : (10 : ℚ) ^ n ≤ digits := by exact_mod_cast bound
  have exponent : place + (Nat.toDigits 10 digits).length - 1 = n + place := by
    rw [length]
    push_cast
    omega
  rw [exponent, zpow_add₀ (by norm_num), zpow_natCast]
  gcongr

/-- The two tests that keep the powers small let every number in the range of the format pass. -/
theorem reach_bounds (least : (2 : ℚ) ^ (-1075 : Int) ≤ digits * 10 ^ place)
    (greatest : (digits : ℚ) * 10 ^ place < 2 ^ (1024 : Int)) :
    digits ≠ 0 ∧ -330 ≤ place + (Nat.toDigits 10 digits).length ∧
      place + (Nat.toDigits 10 digits).length ≤ 310 := by
  have ten : (1 : ℚ) ≤ 10 := by norm_num
  have nonzero : digits ≠ 0 := by
    rintro rfl
    rw [Nat.cast_zero, zero_mul] at least
    exact absurd least (by norm_num)
  refine ⟨nonzero, ?_, ?_⟩
  · by_contra below
    have power : (10 : ℚ) ^ (place + (Nat.toDigits 10 digits).length) ≤ 10 ^ (-330 : Int) :=
      zpow_le_zpow_right₀ ten (by omega)
    have tiny : (10 : ℚ) ^ (-330 : Int) < 2 ^ (-1075 : Int) := by
      rw [zpow_neg, zpow_neg, inv_lt_inv₀ (by positivity) (by positivity)]
      exact_mod_cast (by decide +kernel : 2 ^ 1075 < 10 ^ 330)
    exact (tiny.trans_le least).not_ge ((lt_reach digits place).le.trans power)
  · by_contra above
    have power : (10 : ℚ) ^ (310 : Int) ≤ 10 ^ (place + (Nat.toDigits 10 digits).length - 1) :=
      zpow_le_zpow_right₀ ten (by omega)
    have huge : (2 : ℚ) ^ (1024 : Int) < 10 ^ (310 : Int) := by
      exact_mod_cast (by decide +kernel : 2 ^ 1024 < 10 ^ 310)
    have reached := power.trans (reach_le (Nat.pos_of_ne_zero nonzero))
    exact (greatest.trans huge).not_ge reached

/-- The quotient of natural numbers that stands for a decimal number. -/
theorem cast_tenTo_div (digits : Nat) (place : Int) :
    ((digits * tenTo place.toNat : Nat) : ℚ) / (tenTo (-place).toNat : Nat) =
      digits * 10 ^ place := by
  have cut : (10 : ℚ) ^ (-place).toNat ≠ 0 := by positivity
  rw [Nat.cast_mul, cast_tenTo, cast_tenTo, pow_toNat_eq (by norm_num) place, ← mul_assoc,
    mul_div_assoc, div_self cut, mul_one]

end Reach

theorem ofMagnitude_magnitude {y : Binary64} (small : y.magnitude.val < infinityMagnitude) :
    ofMagnitude y.negative y.magnitude.val = y := by
  rw [ofMagnitude, dif_pos small]

/-- A decimal number that rounds to a finite value is read as that value. -/
theorem ofDecimal_eq {y : Binary64} {m : Nat} {e : Int} (finite : y.size = .finite m e)
    (positive : 0 < m) {digits : Nat} {place : Int} (near : Near m e (digits * 10 ^ place)) :
    ofDecimal y.negative digits place = y := by
  obtain ⟨magnitude, small, -, canonical⟩ := magnitude_of_size finite
  have canonical := canonical positive
  have greatest : (digits : ℚ) * 10 ^ place < 2 ^ (1024 : Int) := by
    refine (near.lt canonical).trans_le (zpow_le_zpow_right₀ (by norm_num) ?_)
    have top := canonical.greatest
    omega
  obtain ⟨nonzero, above, below⟩ := reach_bounds (near.least canonical) greatest
  have divisor : 0 < tenTo (-place).toNat := Nat.pow_pos (by decide)
  have rounded := nearestMagnitude_eq canonical divisor (cast_tenTo_div digits place ▸ near)
  have inside : ¬(digits = 0 ∨ place + (Nat.toDigits 10 digits).length < -330) := by omega
  unfold ofDecimal
  simp only [Bool.or_eq_true, decide_eq_true_eq, if_neg inside, if_neg (Int.not_lt.2 below)]
  rw [rounded, ← magnitude]
  exact ofMagnitude_magnitude small

end Binary64
end LineTree
