/-!
# Sets of characters

The sets that a pattern can name: runs of code points, and what the operations on sets make of
them. The named sets and the cases of letters know ASCII only.
Main statements: `CharSet.contains_complement`, `CharSet.contains_inter`.
-/
namespace LineTree

inductive CharSet where
  | run (first last : Char)
  | union (s t : CharSet)
  /-- What is in the first set and not in the second one. -/
  | without (s t : CharSet)
  /-- The letters of the set in both cases, and its other characters. -/
  | caseless (s : CharSet)
  deriving DecidableEq, Repr

namespace CharSet

/-- The character is in the set. -/
def contains : CharSet → Char → Bool
  | run first last, c => first ≤ c && c ≤ last
  | union s t, c => s.contains c || t.contains c
  | without s t, c => s.contains c && !t.contains c
  | caseless s, c => s.contains c || s.contains c.toLower || s.contains c.toUpper

def single (c : Char) : CharSet := run c c

/-- Every character. -/
def all : CharSet := run '\x00' (Char.ofNat 0x10FFFF)

/-- No character. -/
def nothing : CharSet := without all all

def complement (s : CharSet) : CharSet := without all s

def inter (s t : CharSet) : CharSet := without s (complement t)

/-- What is in one of the sets only. -/
def symmetricDifference (s t : CharSet) : CharSet := union (without s t) (without t s)

theorem contains_all (c : Char) : all.contains c = true := by
  have hc : c.toNat < 0x110000 := by
    rcases c.valid with h | ⟨_, h⟩
    · exact Nat.lt_trans h (by decide)
    · exact h
  have hlast : c ≤ Char.ofNat 0x10FFFF := by
    show c.val.toNat ≤ (Char.ofNat 0x10FFFF).val.toNat
    exact Nat.le_of_lt_succ hc
  have hfirst : '\x00' ≤ c := Nat.zero_le c.val.toNat
  simp [all, contains, hfirst, hlast]

theorem contains_complement (s : CharSet) (c : Char) :
    s.complement.contains c = !s.contains c := by
  simp [complement, contains, contains_all]

theorem contains_inter (s t : CharSet) (c : Char) :
    (s.inter t).contains c = (s.contains c && t.contains c) := by
  simp [inter, contains, contains_complement]

def digits : CharSet := run '0' '9'

def letters : CharSet := union (run 'a' 'z') (run 'A' 'Z')

/-- The characters that words are made of. -/
def wordCharacters : CharSet := union (union letters digits) (single '_')

def blanks : CharSet := union (run '\t' '\r') (single ' ')

/-- The characters with a shape, which are those between the space and the delete. -/
def shapes : CharSet := run '!' '~'

/-- The sets with a name. -/
def named : List (String × CharSet) :=
  [("alnum", union letters digits), ("alpha", letters), ("ascii", run '\x00' '\x7f'),
   ("blank", union (single '\t') (single ' ')),
   ("cntrl", union (run '\x00' '\x1f') (single '\x7f')), ("digit", digits), ("graph", shapes),
   ("lower", run 'a' 'z'), ("print", run ' ' '~'),
   ("punct", without shapes (union letters digits)), ("space", blanks), ("upper", run 'A' 'Z'),
   ("word", wordCharacters), ("xdigit", union digits (union (run 'a' 'f') (run 'A' 'F')))]

end CharSet
end LineTree
