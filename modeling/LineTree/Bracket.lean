/-!
# Brackets

The three shapes of bracket and the characters that open and close them. Main statements:
`Bracket.ofOpener?_eq_some_iff`, `Bracket.ofCloser?_eq_some_iff`.
-/
namespace LineTree

/-- The shapes of bracket. -/
inductive Bracket where
  | square
  | round
  | curly
  deriving DecidableEq, Repr

namespace Bracket

def opener : Bracket → Char
  | square => '['
  | round => '('
  | curly => '{'

def closer : Bracket → Char
  | square => ']'
  | round => ')'
  | curly => '}'

def all : List Bracket := [square, round, curly]

/-- The bracket that the character opens. -/
def ofOpener? (c : Char) : Option Bracket := all.find? (·.opener = c)

/-- The bracket that the character closes. -/
def ofCloser? (c : Char) : Option Bracket := all.find? (·.closer = c)

theorem ofOpener?_eq_some_iff {c : Char} {b : Bracket} : ofOpener? c = some b ↔ c = b.opener := by
  constructor
  · intro h
    have hb := List.find?_some h
    simpa [eq_comm] using hb
  · rintro rfl
    cases b <;> rfl

theorem ofCloser?_eq_some_iff {c : Char} {b : Bracket} : ofCloser? c = some b ↔ c = b.closer := by
  constructor
  · intro h
    have hb := List.find?_some h
    simpa [eq_comm] using hb
  · rintro rfl
    cases b <;> rfl

end Bracket

end LineTree
