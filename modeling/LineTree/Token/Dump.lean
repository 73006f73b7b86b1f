import LineTree.Token.Basic
import LineTree.Text.Quoted
import LineTree.Number.Decimal
import LineTree.Json

/-!
# Dumps of token trees

Two written forms of a tree. The text form has a line for each token, the tokens inside another one
four spaces further in. The JSON form leaves out an empty list of children and a missing value.
-/
namespace LineTree

namespace Value

/-- Numbers never have an exponent, and whole numbers have no point. -/
def floatStyle : DecimalStyle where
  tie := .upward
  positional := fun _ => true
  marksWhole := false
  notANumber := "NaN".toList
  infinite := "inf".toList
  signsInfinite := true

/-- The value as a dump shows it: numbers plain, texts quoted. -/
def text : Value → Text
  | integer n => writeInteger n
  | float x => floatStyle.write x
  | string t => t.quote

/-- The value under the name of its type. -/
def toJson : Value → Json
  | integer n => .object [("integer".toList, .integer n)]
  | float x => .object [("float".toList, .float x)]
  | string t => .object [("string".toList, .string t)]

end Value

namespace Token

/-- Literal, kind, place and value on one line. -/
def heading (line start : Nat) (literal : Text) (kind : Kind) (value : Option Value) : Text :=
  literal.quote ++ ' ' :: kind.name.toList
    ++ [' ', '('] ++ writeNat line ++ ':' :: writeNat start ++ [')']
    ++ (match value with
      | some v => ' ' :: v.text
      | none => [])

mutual

/-- The lines of a token at the given depth. -/
def dumpAt (depth : Nat) : Token → Text
  | ⟨line, start, literal, kind, children, value⟩ =>
    List.replicate (4 * depth) ' ' ++ heading line start literal kind value ++ ['\n']
      ++ dumpAllAt (depth + 1) children

def dumpAllAt (depth : Nat) : List Token → Text
  | [] => []
  | t :: rest => dumpAt depth t ++ dumpAllAt depth rest

end

theorem dumpAllAt_eq_flatMap (depth : Nat) (l : List Token) :
    dumpAllAt depth l = l.flatMap (dumpAt depth) := by
  induction l with
  | nil => rfl
  | cons t l ih => rw [dumpAllAt, ih, List.flatMap_cons]

/-- The lines of a token and of all tokens inside it. -/
def dump (t : Token) : Text := dumpAt 0 t

mutual

/-- The tree as a JSON value, with the fields in a fixed order. -/
def toJson : Token → Json
  | ⟨line, start, literal, kind, children, value⟩ =>
    .object
      ([("line".toList, .integer line), ("start".toList, .integer start),
        ("literal".toList, .string literal), ("kind".toList, .string kind.name.toList)]
        ++ (if children.isEmpty then [] else [("children".toList, .array (toJsonAll children))])
        ++ (match value with
          | some v => [("value".toList, v.toJson)]
          | none => []))

def toJsonAll : List Token → List Json
  | [] => []
  | t :: rest => toJson t :: toJsonAll rest

end

theorem toJsonAll_eq_map (l : List Token) : toJsonAll l = l.map toJson := by
  induction l with
  | nil => rfl
  | cons t l ih => rw [toJsonAll, ih, List.map_cons]

end Token
end LineTree
