import LineTree.Kind
import LineTree.Text.Blank

/-!
# Lexical rules

Two rules decide how a line falls into tokens: what the next character does to the innermost open
token, and which kind of token a character begins. Names, commands and numbers are made of
ASCII characters; only blank space is decided by Unicode.
-/
namespace LineTree

/-- What a character does to the innermost open token. -/
inductive Effect where
  /-- It belongs to the token. -/
  | extend
  /-- It begins something else: the token ends in front of it. -/
  | endBefore
  /-- It is the last character of the token, and a whitespace token follows, even if empty. -/
  | endWithGap
  /-- It is the last character of the token. -/
  | endAfter
  /-- It begins a token of this kind inside the open one. -/
  | nest (kind : Kind)
  /-- It belongs to the token, which turns into one of this kind. -/
  | become (kind : Kind)
  deriving DecidableEq, Repr

/-- Letters, digits and the underscore. -/
def isNameChar (c : Char) : Bool := c.isAlphanum || c == '_'

/-- The characters that begin a name. -/
def isNameStart (c : Char) : Bool := c.isAlpha || c == '_' || c == '$'

/-- Digits and the point. -/
def isNumberChar (c : Char) : Bool := c.isDigit || c == '.'

/-- The characters that end a number as its unit: floating point, and degrees in both spellings. -/
def isUnitSuffix (c : Char) : Bool := c == 'f' || c == 'F' || c == '°' || c == 'º'

def operatorChars : List Char :=
  ['+', '-', '*', '%', '<', '>', '≥', '≤', '~', '!', '&', '|', '≠']

/-- A token that takes characters of one class. -/
def Effect.extendIf (belongs : Bool) : Effect := if belongs then .extend else .endBefore

/-- What the character does to an open token of the kind. Lines, bracket groups and semantic kinds
never stand innermost during a scan. -/
def Kind.effect (k : Kind) (c : Char) : Effect :=
  match k with
  | .whitespace => .extendIf (isBlank c)
  | .indent => .extendIf (c == '\t')
  | .identifier | .label => .extendIf (isNameChar c)
  | .command => .extendIf c.isAlpha
  | .number =>
    if isUnitSuffix c then .endWithGap
    else if c = ',' then .become .position
    else .extendIf (isNumberChar c)
  | .position => .extendIf (isNumberChar c)
  | .quoted q =>
    if c = '\\' then .nest .escape
    else if c = q.mark then .endWithGap
    else .extend
  | .escape => .endAfter
  | .comment => if c = '/' then .become .docComment else .nest .commentContent
  | .docComment => .nest .commentContent
  | .commentContent => .extend
  | .slash => if c = '/' then .become .comment else .endBefore
  | .methodCall => if c = ':' then .become .labelMark else .endBefore
  | .labelMark | .dot | .comma | .lambdaHat | .assignment | .operator | .unresolved
  | .line | .brackets _ | .semantic _ => .endBefore

/-- The kind of token that the character begins. A name is a label directly behind a label mark;
nothing else depends on the token in front. -/
def Kind.begunBy (previous : Kind) (c : Char) : Kind :=
  if isBlank c then .whitespace
  else if c.isDigit then .number
  else if isNameStart c then (if previous = .labelMark then .label else .identifier)
  else if operatorChars.contains c then .operator
  else match Bracket.ofOpener? c with
    | some b => .brackets b
    | none =>
      match c with
      | '/' => .slash
      | '.' => .dot
      | '^' => .lambdaHat
      | ':' => .methodCall
      | ',' => .comma
      | '=' => .assignment
      | '#' => .command
      | '"' => .quoted .double
      | '\'' => .quoted .single
      | _ => .unresolved

end LineTree
