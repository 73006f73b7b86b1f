import LineTree.Number.Binary64

/-!
# Shortest decimal digits

A positive number of the binary64 format has an interval of reals that round to it. The shortest
digits are those of a decimal number in the interval with the fewest significant digits; of
several such numbers it is the one nearest to the exact value.
-/
namespace LineTree

/-- The significant digits of a positive number: `digits * 10 ^ exponent`. -/
structure Significant where
  digits : Nat
  exponent : Int
  deriving DecidableEq, Repr

/-- Which of two equally near decimal numbers is taken. -/
inductive Tie where
  | upward
  | toEven
  deriving DecidableEq, Repr

/-- The reals that round to `significand * 2 ^ exponent`, as multiples of `2 ^ (exponent - 2)`.
Below a power of two the spacing halves. The ends belong to it iff the significand is even. -/
structure RoundingInterval where
  low : Nat
  middle : Nat
  high : Nat
  closed : Bool
  exponent : Int

def roundingInterval (significand : Nat) (exponent : Int) : RoundingInterval where
  low := if significand = twoTo 52 ∧ -1074 < exponent then 4 * significand - 1
    else 4 * significand - 2
  middle := 4 * significand
  high := 4 * significand + 2
  closed := significand % 2 = 0
  exponent := exponent - 2

namespace RoundingInterval

/-- `multiplier n / divisor` is the number `n * 2 ^ exponent` in units of `10 ^ place`. -/
def multiplier (i : RoundingInterval) (place : Int) : Nat :=
  twoTo i.exponent.toNat * tenTo (-place).toNat

def divisor (i : RoundingInterval) (place : Int) : Nat :=
  twoTo (-i.exponent).toNat * tenTo place.toNat

/-- The number `digits * 10 ^ place` reads back as the middle. -/
def holds (i : RoundingInterval) (place : Int) (digits : Nat) : Bool :=
  let point := digits * i.divisor place
  let low := i.low * i.multiplier place
  let high := i.high * i.multiplier place
  if i.closed then low ≤ point && point ≤ high else low < point && point < high

/-- The place of the leading decimal digit of the middle. Every positive number has a digit
above place `-350`. -/
def leadingPlace (i : RoundingInterval) : Int :=
  (Nat.toDigits 10 (i.middle * i.multiplier (-350) / i.divisor (-350))).length - 351

/-- The point of the grid of multiples of `10 ^ place` nearest to the middle, among those that
read back as it. -/
def nearestAt? (i : RoundingInterval) (tie : Tie) (place : Int) : Option Significant :=
  let value := i.middle * i.multiplier place
  let floor := value / i.divisor place
  let rest := 2 * (value % i.divisor place)
  let takeFloor := rest < i.divisor place
    || (rest = i.divisor place && tie = .toEven && floor % 2 = 0)
  match i.holds place floor, i.holds place (floor + 1) with
  | true, true => some ⟨if takeFloor then floor else floor + 1, place⟩
  | true, false => some ⟨floor, place⟩
  | false, true => some ⟨floor + 1, place⟩
  | false, false => none

end RoundingInterval

/-- Writes ten, a hundred and so on with one digit. -/
def Significant.shorten (s : Significant) : Significant :=
  if s.digits % 10 = 0 then ⟨s.digits / 10, s.exponent + 1⟩ else s

/-- The fewest digits that read back. Seventeen always suffice. -/
def shortest (significand : Nat) (exponent : Int) (tie : Tie) : Significant :=
  let i := roundingInterval significand exponent
  let leading := i.leadingPlace
  match (List.range 17).findSome? fun (n : Nat) => i.nearestAt? tie (leading - n) with
  | some s => s.shorten
  | none => ⟨i.middle * i.multiplier (leading - 16) / i.divisor (leading - 16), leading - 16⟩

end LineTree
