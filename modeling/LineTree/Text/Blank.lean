import LineTree.Text.Bytes

/-!
# Blank characters

The characters with the Unicode property White_Space, and trimming by them.
-/
namespace LineTree

/-- White_Space: the separators and the layout controls, not the zero-width characters. -/
def isBlank (c : Char) : Bool :=
  let n := c.toNat
  (0x09 ≤ n && n ≤ 0x0D) || n == 0x20 || n == 0x85 || n == 0xA0 || n == 0x1680
    || (0x2000 ≤ n && n ≤ 0x200A) || n == 0x2028 || n == 0x2029 || n == 0x202F
    || n == 0x205F || n == 0x3000

/-- Removes blank characters at both ends. -/
def Text.trim (t : Text) : Text :=
  ((t.dropWhile isBlank).reverse.dropWhile isBlank).reverse

example : Text.trim " \t a b\u3000".toList = "a b".toList := by decide

end LineTree
