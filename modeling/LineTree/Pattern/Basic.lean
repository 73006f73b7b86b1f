import LineTree.Pattern.CharSet
import LineTree.Text.Bytes

/-!
# Patterns of text

A pattern stands for parts of a text. Whether a part fits may depend on the characters next to
it, since a pattern can ask for an edge: the beginning of the text, the end of a line, the edge of
a word. A text is searched in one pass, which carries along what the parts begun so far still
have to fit.
-/
namespace LineTree

/-- A place between two neighbours, of which the one in front is missing at the beginning of the
text and the one behind at its end. -/
structure Gap where
  before : Option Char
  after : Option Char
  deriving DecidableEq, Repr

inductive Edge where
  | textStart
  | textEnd
  | lineStart
  | lineEnd
  /-- Where a word begins or ends. -/
  | word
  | noWord
  | wordStart
  | wordEnd
  /-- Behind no word character. -/
  | openStart
  /-- In front of no word character. -/
  | openEnd
  deriving DecidableEq, Repr

/-- There is a neighbour, and words are made of it. -/
def Gap.inWord (neighbour : Option Char) : Bool := neighbour.any CharSet.wordCharacters.contains

/-- The gap is such an edge. -/
def Edge.isAt (g : Gap) : Edge → Bool
  | textStart => g.before.isNone
  | textEnd => g.after.isNone
  | lineStart => g.before.all (· = '\n')
  | lineEnd => g.after.all (· = '\n')
  | word => Gap.inWord g.before != Gap.inWord g.after
  | noWord => Gap.inWord g.before == Gap.inWord g.after
  | wordStart => !Gap.inWord g.before && Gap.inWord g.after
  | wordEnd => Gap.inWord g.before && !Gap.inWord g.after
  | openStart => !Gap.inWord g.before
  | openEnd => !Gap.inWord g.after

/-- How often a pattern is to fit. -/
structure Bounds where
  least : Nat
  /-- Without it there is no limit. -/
  most : Option Nat
  deriving DecidableEq, Repr

/-- What the bounds ask of the times that follow a first one. -/
def Bounds.afterOnce (b : Bounds) : Bounds := ⟨b.least - 1, b.most.map (· - 1)⟩

inductive Pattern where
  | empty
  | oneOf (s : CharSet)
  | edge (e : Edge)
  | seq (p q : Pattern)
  | either (p q : Pattern)
  /-- Parts that fit one after the other, as many as the bounds say. -/
  | repeated (p : Pattern) (b : Bounds)
  deriving DecidableEq, Repr

namespace Pattern

/-- The pattern fits the empty part at a gap. -/
def fitsEmpty (g : Gap) : Pattern → Bool
  | empty => true
  | oneOf _ => false
  | edge e => e.isAt g
  | seq p q => p.fitsEmpty g && q.fitsEmpty g
  | either p q => p.fitsEmpty g || q.fitsEmpty g
  | repeated p b => b.least = 0 || p.fitsEmpty g

/-- One pattern and then the other, shorter where one of them is empty. -/
def followedBy : Pattern → Pattern → Pattern
  | empty, q => q
  | p, empty => p
  | p, q => seq p q

/-- What is left to fit behind the character `c`, which stands behind `before`: a part that begins
with `c` fits the pattern just if the rest of the part fits one of these. Of a repetition, the times
in front of the one that takes `c` are empty. Where the pattern fits the empty part, they may be
as many as the bounds ask for. -/
def leftAfter (before : Option Char) (c : Char) : Pattern → List Pattern
  | empty => []
  | oneOf s => if s.contains c then [empty] else []
  | edge _ => []
  | seq p q =>
    (p.leftAfter before c).map (·.followedBy q)
      ++ if p.fitsEmpty ⟨before, some c⟩ then q.leftAfter before c else []
  | either p q => p.leftAfter before c ++ q.leftAfter before c
  | repeated p b =>
    if b.most = some 0 then []
    else
      let others := b.afterOnce
      let others := if p.fitsEmpty ⟨before, some c⟩ then { others with least := 0 } else others
      (p.leftAfter before c).map
        (·.followedBy (if others.most = some 0 then empty else repeated p others))

/-- A part that begins in the text fits the pattern, or one of those begun before it fits what is
left for it. -/
def occursBehind (p : Pattern) (begun : List Pattern) (before : Option Char) : Text → Bool
  | [] => (p :: begun).any (·.fitsEmpty ⟨before, none⟩)
  | c :: rest =>
    (p :: begun).any (·.fitsEmpty ⟨before, some c⟩)
      || p.occursBehind ((p :: begun).flatMap (·.leftAfter before c)).eraseDups (some c) rest

/-- Some part of the text fits the pattern. -/
def occursIn (p : Pattern) (t : Text) : Bool := p.occursBehind [] none t

example : (seq (edge .wordStart) (seq (oneOf .letters) (edge .textEnd))).occursIn "12 to".toList =
    false := by decide +kernel

example : (seq (repeated (oneOf (.single 'a')) ⟨2, some 3⟩) (oneOf (.single 'b'))).occursIn
    "ab aab".toList = true := by decide +kernel

end Pattern
end LineTree
