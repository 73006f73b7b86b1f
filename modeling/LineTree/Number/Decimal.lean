import LineTree.Number.Shortest

/-!
# Decimal text of floating-point numbers

A finite number is written with its shortest digits. A `DecimalStyle` settles the layout: where an
exponent is used, how a whole number is marked, and which way a tie goes. Reading takes any
number of digits and rounds to the nearest number.
-/
namespace LineTree

/-- The layout of floating-point numbers in one format of output. -/
structure DecimalStyle where
  tie : Tie
  /-- Whether a number with its leading digit at this place is written without an exponent. -/
  positional : Int → Bool
  /-- Whether a whole number ends in `.0`. -/
  marksWhole : Bool
  notANumber : Text
  infinite : Text
  /-- Whether infinity has a sign of its own. -/
  signsInfinite : Bool

namespace DecimalStyle

/-- Digits around the decimal point. -/
def positionalText (style : DecimalStyle) (s : Significant) : Text :=
  let digits := writeNat s.digits
  let whole : Int := digits.length + s.exponent
  if 0 ≤ s.exponent then
    digits ++ List.replicate s.exponent.toNat '0' ++ (if style.marksWhole then ['.', '0'] else [])
  else if 0 < whole then digits.take whole.toNat ++ '.' :: digits.drop whole.toNat
  else '0' :: '.' :: List.replicate (-whole).toNat '0' ++ digits

/-- One digit before the point, and the exponent with its sign. -/
def exponentText (s : Significant) : Text :=
  let digits := writeNat s.digits
  let place : Int := digits.length + s.exponent - 1
  let mantissa := match digits with
    | first :: next :: rest => first :: '.' :: next :: rest
    | _ => digits
  mantissa ++ 'e' :: (if place < 0 then '-' else '+') :: writeNat place.natAbs

def sizeText (style : DecimalStyle) (significand : Nat) (exponent : Int) : Text :=
  if significand = 0 then style.positionalText ⟨0, 0⟩
  else
    let s := shortest significand exponent style.tie
    if style.positional ((writeNat s.digits).length + s.exponent - 1) then style.positionalText s
    else exponentText s

/-- The text of a number in this style. -/
def write (style : DecimalStyle) (x : Binary64) : Text :=
  let sign := if x.negative then ['-'] else []
  match x.size with
  | .notANumber => style.notANumber
  | .infinite => (if style.signsInfinite then sign else []) ++ style.infinite
  | .finite significand exponent => sign ++ style.sizeText significand exponent

end DecimalStyle

/-- Whether all characters are those of the word, in either case. -/
def matchesWord (word : String) (t : Text) : Bool :=
  t.map Char.toLower = word.toList

/-- Reads an exponent: an optional sign and at least one digit. -/
def readExponent? : Text → Option Int
  | '-' :: rest => (readNat? rest).map fun n => -Int.ofNat n
  | '+' :: rest => (readNat? rest).map Int.ofNat
  | t => (readNat? t).map Int.ofNat

/-- Reads digits with an optional point among them and an optional exponent behind them. -/
def readDecimal? (negative : Bool) (t : Text) : Option Binary64 :=
  let whole := t.takeWhile Char.isDigit
  let afterWhole := t.dropWhile Char.isDigit
  let (fraction, tail) := match afterWhole with
    | '.' :: rest => (rest.takeWhile Char.isDigit, rest.dropWhile Char.isDigit)
    | _ => ([], afterWhole)
  let exponent? := match tail with
    | [] => some 0
    | c :: rest => if c = 'e' || c = 'E' then readExponent? rest else none
  match readNat? (whole ++ fraction), exponent? with
  | some digits, some exponent =>
    some (Binary64.ofDecimal negative digits (exponent - fraction.length))
  | _, _ => none

/-- Reads a floating-point number, rounding to the nearest. The words for infinity and for a
value that is not a number are accepted in either case. -/
def readFloat? (t : Text) : Option Binary64 :=
  let (negative, size) := match t with
    | '-' :: rest => (true, rest)
    | '+' :: rest => (false, rest)
    | _ => (false, t)
  if matchesWord "inf" size || matchesWord "infinity" size then some (.infinity negative)
  else if matchesWord "nan" size then some (.notANumber negative)
  else readDecimal? negative size

end LineTree
