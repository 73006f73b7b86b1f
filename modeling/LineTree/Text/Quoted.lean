import LineTree.Text.Bytes
import LineTree.Text.Visible

/-!
# Quoted text

A text between double quotes, on one line and in visible characters only: the quote, the backslash
and the common layout controls have two-character escapes, and any other character that is not
visible is written by its code point.
-/
namespace LineTree.Text

/-- The two-character escape, for a character that has one. -/
def shortEscape? : Char → Option Char
  | '\x00' => some '0'
  | '\t' => some 't'
  | '\r' => some 'r'
  | '\n' => some 'n'
  | '"' => some '"'
  | '\\' => some '\\'
  | _ => none

/-- A character as it stands between the quotes. -/
def quoteChar (c : Char) : Text :=
  match shortEscape? c with
  | some e => ['\\', e]
  | none =>
    if isVisible c then [c]
    else ['\\', 'u', '{'] ++ Nat.toDigits 16 c.toNat ++ ['}']

/-- The text between double quotes. -/
def quote (t : Text) : Text :=
  '"' :: (t.flatMap quoteChar ++ ['"'])

example : quote "a\tb\"\\ é".toList = "\"a\\tb\\\"\\\\ é\"".toList := by decide +kernel

example : quote ['\u200b', '\x7f'] = "\"\\u\x7b200b\x7d\\u\x7b7f\x7d\"".toList := by decide +kernel

end LineTree.Text
