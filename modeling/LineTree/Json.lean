import LineTree.Number.Decimal

/-!
# JSON

JSON values and their text over several lines: two spaces for each level, every item and every
field on a line of its own. The fields of an object keep their order.
-/
namespace LineTree

inductive Json where
  | integer (n : Int)
  | float (x : Binary64)
  | string (t : Text)
  | array (items : List Json)
  | object (fields : List (Text × Json))

namespace Json

/-- Numbers always show a point or an exponent, and have an exponent from `10 ^ 16` up and below
`10 ^ -5`. A value that is no finite number is null. -/
def floatStyle : DecimalStyle where
  tie := .toEven
  positional := fun place => -5 ≤ place && place ≤ 15
  marksWhole := true
  notANumber := "null".toList
  infinite := "null".toList
  signsInfinite := false

/-- The two-character escape, for a character that has one. -/
def shortEscape? : Char → Option Char
  | '"' => some '"'
  | '\\' => some '\\'
  | '\x08' => some 'b'
  | '\t' => some 't'
  | '\n' => some 'n'
  | '\x0c' => some 'f'
  | '\r' => some 'r'
  | _ => none

/-- Writes a number below 256 with two hexadecimal digits. -/
def hexByte (n : Nat) : Text :=
  [(n / 16 % 16).digitChar, (n % 16).digitChar]

/-- A character as it stands in a string. Of the controls only those below the space are escaped. -/
def stringChar (c : Char) : Text :=
  match shortEscape? c with
  | some e => ['\\', e]
  | none => if c.toNat < 0x20 then "\\u00".toList ++ hexByte c.toNat else [c]

def stringText (t : Text) : Text := '"' :: (t.flatMap stringChar ++ ['"'])

/-- A new line at the given level. -/
def newLine (level : Nat) : Text := '\n' :: List.replicate (2 * level) ' '

mutual

/-- The text of a value that begins on a line of the given level. -/
def renderAt (level : Nat) : Json → Text
  | integer n => writeInteger n
  | float x => floatStyle.write x
  | string t => stringText t
  | array [] => ['[', ']']
  | array (item :: rest) =>
    '[' :: (newLine (level + 1) ++ renderAt (level + 1) item ++ renderItems (level + 1) rest
      ++ newLine level ++ [']'])
  | object [] => ['{', '}']
  | object ((key, value) :: rest) =>
    '{' :: (newLine (level + 1) ++ stringText key ++ [':', ' '] ++ renderAt (level + 1) value
      ++ renderFields (level + 1) rest ++ newLine level ++ ['}'])

/-- The items behind the first one. -/
def renderItems (level : Nat) : List Json → Text
  | [] => []
  | item :: rest => ',' :: (newLine level ++ renderAt level item ++ renderItems level rest)

/-- The fields behind the first one. -/
def renderFields (level : Nat) : List (Text × Json) → Text
  | [] => []
  | (key, value) :: rest =>
    ',' :: (newLine level ++ stringText key ++ [':', ' '] ++ renderAt level value
      ++ renderFields level rest)

end

/-- The text of a whole document. -/
def render (j : Json) : Text := renderAt 0 j

end Json
end LineTree
