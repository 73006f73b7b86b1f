import LineTree.Token.Basic
import LineTree.Lexical
import LineTree.Number.Decimal

/-!
# Values of literals

A number literal with a unit suffix or a point is a floating-point number, any other a whole
number. In a quoted literal a backslash makes the next character plain, or stands with it for a
control character.
-/
namespace LineTree

/-- The character that an escape stands for. -/
def unescape : Char → Char
  | 'n' => '\n'
  | 't' => '\t'
  | 'r' => '\r'
  | '0' => '\x00'
  | c => c

/-- The text up to the first quote without a backslash in front, or up to the end. -/
def decodeBody (mark : Char) : Text → Text
  | [] => []
  | c :: rest =>
    if c = '\\' then
      match rest with
      | [] => []
      | e :: rest => unescape e :: decodeBody mark rest
    else if c = mark then []
    else c :: decodeBody mark rest

/-- The text of a quoted literal. The opening quote may be missing. -/
def decodeQuoted (quote : Quote) (literal : Text) : Text :=
  match literal with
  | c :: rest => if c = quote.mark then decodeBody quote.mark rest else decodeBody quote.mark literal
  | [] => []

/-- The digits of a number literal, and whether a unit suffix follows them. -/
def splitUnit (literal : Text) : Text × Bool :=
  match literal.getLast? with
  | some c => if isUnitSuffix c then (literal.dropLast, true) else (literal, false)
  | none => (literal, false)

/-- The number that a literal stands for, if its digits make one. -/
def decodeNumber? (literal : Text) : Option Value :=
  let (digits, suffixed) := splitUnit literal
  if suffixed || digits.contains '.' then (readFloat? digits).map .float
  else (readInteger? digits).map .integer

namespace Token

/-- The value of the literal. Only numbers and quoted literals have one. -/
def decoded? (t : Token) : Option Value :=
  match t.kind with
  | .number => decodeNumber? t.literal
  | .quoted q => some (.string (decodeQuoted q t.literal))
  | _ => none

mutual

/-- Sets the value of every token to that of its literal. -/
def withValues : Token → Token
  | ⟨line, start, literal, kind, children, value⟩ =>
    ⟨line, start, literal, kind, withValuesAll children,
      decoded? ⟨line, start, literal, kind, children, value⟩⟩

def withValuesAll : List Token → List Token
  | [] => []
  | t :: rest => t.withValues :: withValuesAll rest

end

theorem withValuesAll_eq_map (l : List Token) : withValuesAll l = l.map withValues := by
  induction l with
  | nil => rfl
  | cons t l ih => rw [withValuesAll, ih, List.map_cons]

theorem withValues_eq (t : Token) :
    t.withValues = { t with children := t.children.map withValues, value := t.decoded? } := by
  cases t
  rw [withValues, withValuesAll_eq_map]

end Token
end LineTree
