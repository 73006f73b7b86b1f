import LineTree.Number.Integer

/-!
# Binary floating point

Numbers of the IEEE format binary64, kept as their bits, so that equality is decidable and
arithmetic on them is exact arithmetic on natural numbers. Every decimal number has a nearest
value here; of two equally near ones it is the one with the even significand.
-/
namespace LineTree

/-- A binary64 number: its sign, and the exponent and fraction fields as one number. The
magnitudes of finite numbers have the order of the numbers themselves. -/
structure Binary64 where
  negative : Bool
  magnitude : Fin (twoTo 63)
  deriving DecidableEq

namespace Binary64

/-- The magnitude of infinity; those above it are not numbers. -/
def infinityMagnitude : Nat := 0x7FF * twoTo 52

/-- All 64 bits as one number. -/
def bits (x : Binary64) : Nat :=
  (if x.negative then twoTo 63 else 0) + x.magnitude.val

/-- The positive or negative infinity. -/
def infinity (negative : Bool) : Binary64 :=
  ⟨negative, ⟨infinityMagnitude, by decide⟩⟩

/-- A value that is not a number. -/
def notANumber (negative : Bool) : Binary64 :=
  ⟨negative, ⟨infinityMagnitude + twoTo 51, by decide⟩⟩

/-- What a binary64 number stands for, its sign aside. -/
inductive Size where
  | notANumber
  | infinite
  /-- The number `significand * 2 ^ exponent`. -/
  | finite (significand : Nat) (exponent : Int)
  deriving DecidableEq, Repr

/-- Subnormal numbers share the exponent of the least normal ones. -/
def size (x : Binary64) : Size :=
  let field := x.magnitude.val / twoTo 52
  let fraction := x.magnitude.val % twoTo 52
  if field = 0x7FF then (if fraction = 0 then .infinite else .notANumber)
  else if field = 0 then .finite fraction (-1074)
  else .finite (twoTo 52 + fraction) (Int.ofNat field - 1075)

/-- The natural number nearest to a quotient; a half goes to the even neighbour. -/
def nearestQuotient (num den : Nat) : Nat :=
  let q := num / den
  let r := num % den
  if 2 * r < den then q else if den < 2 * r then q + 1 else q + q % 2

/-- The exponent of the greatest power of two not above a positive quotient. -/
def floorLog2 (num den : Nat) : Int :=
  let guess : Int := num.log2 - den.log2
  if den * twoTo guess.toNat ≤ num * twoTo (-guess).toNat then guess else guess - 1

/-- The magnitude nearest to a positive quotient, possibly that of infinity or above.
A significand that is rounded up to `2 ^ 53` carries into the exponent field. -/
def nearestMagnitude (num den : Nat) : Nat :=
  let exponent := max (floorLog2 num den - 52) (-1074)
  let significand := nearestQuotient (num * twoTo (-exponent).toNat) (den * twoTo exponent.toNat)
  (exponent + 1074).toNat * twoTo 52 + significand

/-- The number with the given magnitude, or infinity where there is none. -/
def ofMagnitude (negative : Bool) (magnitude : Nat) : Binary64 :=
  if h : magnitude < infinityMagnitude then
    ⟨negative, ⟨magnitude, Nat.lt_trans h (by decide)⟩⟩
  else infinity negative

/-- The number nearest to `digits * 10 ^ exponent`. Far outside the range of the format the
power is not computed: everything from `10 ^ 309` up is infinite and everything below
`10 ^ (-330)` is zero. -/
def ofDecimal (negative : Bool) (digits : Nat) (exponent : Int) : Binary64 :=
  let reach := exponent + (Nat.toDigits 10 digits).length
  if digits = 0 || reach < -330 then ofMagnitude negative 0
  else if 310 < reach then infinity negative
  else
    ofMagnitude negative
      (nearestMagnitude (digits * tenTo exponent.toNat) (tenTo (-exponent).toNat))

example : (ofDecimal false 1 0).bits = 0x3FF0000000000000 := by decide +kernel
example : (ofDecimal true 1 (-1)).bits = 0xBFB999999999999A := by decide +kernel
example : (ofDecimal false 5 (-324)).bits = 1 ∧ (ofDecimal false 2 (-324)).bits = 0 := by
  decide +kernel
example : (ofDecimal false 17976931348623159 292) = infinity false := by decide +kernel

end Binary64
end LineTree
