import LineTree.Text.Bytes

/-!
# Whole numbers in decimal

Reading and writing of whole numbers in ASCII digits. A reader takes the whole text or nothing,
and refuses a number outside its range.
-/
namespace LineTree

/-- A power of two. -/
abbrev twoTo (n : Nat) : Nat := Nat.pow 2 n

/-- A power of ten. -/
abbrev tenTo (n : Nat) : Nat := Nat.pow 10 n

/-- The value of an ASCII digit. -/
def digitValue? (c : Char) : Option Nat :=
  if c.isDigit then some (c.toNat - '0'.toNat) else none

/-- Reads digits, the most significant first, behind a number already read. -/
def readDigitsAfter (n : Nat) : Text → Option Nat
  | [] => some n
  | c :: rest =>
    match digitValue? c with
    | some d => readDigitsAfter (10 * n + d) rest
    | none => none

/-- Reads one or more digits. -/
def readNat? : Text → Option Nat
  | [] => none
  | digits => readDigitsAfter 0 digits

/-- Reads an unsigned number below `2 ^ 64`, with an optional plus sign. -/
def readWord? (t : Text) : Option Nat :=
  let digits := match t with
    | '+' :: rest => rest
    | _ => t
  (readNat? digits).filter (· < twoTo 64)

/-- Reads a signed number from `-2 ^ 63` up to `2 ^ 63 - 1`, with an optional sign. -/
def readInteger? (t : Text) : Option Int :=
  let signed : Option Int := match t with
    | '+' :: rest => (readNat? rest).map Int.ofNat
    | '-' :: rest => (readNat? rest).map fun n => -Int.ofNat n
    | _ => (readNat? t).map Int.ofNat
  signed.filter fun n => -Int.ofNat (twoTo 63) ≤ n && n < Int.ofNat (twoTo 63)

/-- Writes a number without leading zeros. -/
def writeNat (n : Nat) : Text := Nat.toDigits 10 n

/-- Writes a number, with a minus sign in front of a negative one. -/
def writeInteger : Int → Text
  | .ofNat n => writeNat n
  | .negSucc n => '-' :: writeNat (n + 1)

example : readInteger? "-9223372036854775808".toList = some (-Int.ofNat (twoTo 63)) := by decide +kernel
example : readInteger? "9223372036854775808".toList = none := by decide +kernel
example : readWord? "-0".toList = none ∧ readWord? "+007".toList = some 7 := by decide +kernel

end LineTree
