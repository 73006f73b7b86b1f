import LineTree.Token.Covered
import LineTree.Number.Integer

/-!
# Highlighting

A highlighted line is a row of segments, each in one colour or in none. A token with a colour is one
segment with all of its text; a token without one is made of the segments of the tokens inside it and
of the uncoloured text between them. Tokens laid over the line by a later analysis decide the
colour of what they cover.
-/
namespace LineTree

inductive Colour where
  | darkRed
  | darkGreen
  | darkYellow
  | darkCyan
  | red
  | green
  | yellow
  | blue
  | magenta
  | cyan
  deriving DecidableEq, Repr

/-- The number in the palette of a terminal. -/
def Colour.code : Colour → Nat
  | darkRed => 1
  | darkGreen => 2
  | darkYellow => 3
  | darkCyan => 6
  | red => 9
  | green => 10
  | yellow => 11
  | blue => 12
  | magenta => 13
  | cyan => 14

/-- The colour of a kind of token, if it has one. -/
def Kind.colour? : Kind → Option Colour
  | .comment | .commentContent => some .darkGreen
  | .docComment => some .green
  | .quoted _ => some .red
  | .number | .position => some .blue
  | .command | .semantic .keyword | .semantic .boolean | .semantic .null => some .magenta
  | .label => some .darkYellow
  | .semantic .typeName | .semantic .namespaceName => some .cyan
  | .semantic .functionName | .semantic .methodName => some .yellow
  | .semantic .enumCase => some .darkCyan
  | .unresolved => some .darkRed
  | _ => none

/-- A piece of text in one colour or in none. -/
structure Segment where
  text : Text
  colour : Option Colour := none
  deriving DecidableEq

/-- The colour of a range of kind `k`. The last token laid over all of the range decides, if its
kind has a colour. -/
def colourOf? (overlay : List Token) (start stop : Nat) (k : Kind) : Option Colour :=
  let covering := overlay.reverse.find? fun o => o.start ≤ start && stop ≤ o.stop
  (covering.bind (·.kind.colour?)).or k.colour?

namespace Token

mutual

/-- The segments of a token. An empty token has none. -/
def segments (overlay : List Token) : Token → List Segment
  | ⟨_, start, literal, kind, children, _⟩ =>
    if literal.isEmpty then []
    else
      match colourOf? overlay start (start + Text.byteLength literal) kind with
      | some colour => [⟨literal, some colour⟩]
      | none => segmentsFrom overlay start literal start children

/-- The segments from the offset on, with these tokens in the text. -/
def segmentsFrom (overlay : List Token) (origin : Nat) (literal : Text) (offset : Nat) :
    List Token → List Segment
  | [] => [{ text := literal.gap origin offset (origin + Text.byteLength literal) }]
  | t :: rest =>
    { text := literal.gap origin offset t.start } :: t.segments overlay
      ++ segmentsFrom overlay origin literal t.stop rest

end

theorem segments_eq (overlay : List Token) (t : Token) :
    t.segments overlay =
      if t.literal.isEmpty then []
      else
        match colourOf? overlay t.start t.stop t.kind with
        | some colour => [⟨t.literal, some colour⟩]
        | none => segmentsFrom overlay t.start t.literal t.start t.children := by
  cases t
  rfl

end Token

/-- How segments are written. -/
inductive Painting where
  /-- Text alone. -/
  | plain
  /-- Each coloured segment between two control sequences. -/
  | coloured
  /-- The same sequences, without colours in them. -/
  | uncoloured
  deriving DecidableEq, Repr

namespace Painting

/-- The control sequence with these parameters. -/
def control (parameters : Text) : Text := '\x1b' :: '[' :: (parameters ++ ['m'])

/-- What stands in front of a coloured segment. -/
def opening (p : Painting) (c : Colour) : Text :=
  match p with
  | plain => []
  | coloured => control ("38;5;".toList ++ writeNat c.code)
  | uncoloured => control []

/-- What stands behind a coloured segment. -/
def closing : Painting → Text
  | plain => []
  | coloured => control ['3', '9']
  | uncoloured => control []

/-- The text of a segment. -/
def segmentText (p : Painting) (s : Segment) : Text :=
  match s.colour with
  | some c => p.opening c ++ s.text ++ p.closing
  | none => s.text

end Painting

/-- The text of a token, painted. -/
def Token.highlighted (t : Token) (overlay : List Token) (p : Painting) : Text :=
  (t.segments overlay).flatMap p.segmentText

end LineTree
