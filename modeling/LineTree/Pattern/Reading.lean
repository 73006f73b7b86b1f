import LineTree.Number.Integer
import LineTree.Pattern.Basic
import LineTree.Text.Blank

/-!
# Reading patterns

A pattern is written as a text. A character stands for itself, but for the signs of the notation:
the point, the anchors `^` and `$`, sets in square brackets, groups in parentheses, bars between
alternatives, and the repetitions `*`, `+`, `?` and numbers in braces. A backslash takes the
meaning from a sign, and gives one to some letters. What is written otherwise is no pattern.
-/
namespace LineTree

/-- How the signs behind it are taken. Each mode lasts to the end of its group. -/
structure PatternModes where
  /-- Letters stand for both of their cases. -/
  caseless : Bool := false
  /-- The anchors stand for the ends of lines too. -/
  byLine : Bool := false
  /-- The point takes a newline too. -/
  acrossLines : Bool := false
  /-- Blanks and comments in the pattern stand for nothing. -/
  spaced : Bool := false
  deriving DecidableEq, Repr

namespace PatternModes

/-- Switches a mode by its letter. Which end of a part is found first, and how the classes go
beyond ASCII, have letters as well, but no bearing on whether a part is found. -/
def switch? (m : PatternModes) (letter : Char) (on : Bool) : Option PatternModes :=
  match letter with
  | 'i' => some { m with caseless := on }
  | 'm' => some { m with byLine := on }
  | 's' => some { m with acrossLines := on }
  | 'x' => some { m with spaced := on }
  | 'U' | 'u' | 'R' => some m
  | _ => none

/-- Leaves out blanks, and comments from `#` to the end of the line. -/
def skipLayout (inComment : Bool) : Text → Text
  | [] => []
  | c :: rest =>
    if inComment then skipLayout (c != '\n') rest
    else if c = '#' then skipLayout true rest
    else if isBlank c then skipLayout false rest
    else c :: rest

/-- What counts of a text that is still to be read. -/
def skip (m : PatternModes) (t : Text) : Text := if m.spaced then skipLayout false t else t

def cased (m : PatternModes) (s : CharSet) : CharSet := if m.caseless then .caseless s else s

/-- The set that the point stands for. -/
def point (m : PatternModes) : CharSet :=
  if m.acrossLines then .all else .complement (.single '\n')

end PatternModes

namespace Pattern

/-- What a character of the notation stands for, alone or behind a backslash. -/
inductive Sign where
  | character (c : Char)
  | anyOf (s : CharSet)
  | place (e : Edge)
  deriving DecidableEq, Repr

/-- The characters that a sign stands for. -/
def Sign.members? (m : PatternModes) : Sign → Option CharSet
  | character c => some (m.cased (.single c))
  | anyOf s => some (m.cased s)
  | place _ => none

def Sign.pattern (m : PatternModes) : Sign → Pattern
  | character c => oneOf (m.cased (.single c))
  | anyOf s => oneOf (m.cased s)
  | place e => edge e

/-- The value of a hexadecimal digit. -/
def hexValue? (c : Char) : Option Nat :=
  if c.isDigit then some (c.toNat - '0'.toNat)
  else if 'a' ≤ c.toLower ∧ c.toLower ≤ 'f' then some (c.toLower.toNat - 'a'.toNat + 10)
  else none

/-- The character whose code point has these hexadecimal digits. -/
def ofHex? (digits : Text) : Option Char :=
  if digits.isEmpty then none
  else do
    let values ← digits.mapM hexValue?
    let n := values.foldl (16 * · + ·) 0
    if n.isValidChar then some (Char.ofNat n) else none

/-- Reads a code point, in braces or with exactly `width` digits. -/
def readCodePoint (width : Nat) : Text → Option (Char × Text)
  | '{' :: rest =>
    match rest.dropWhile (· != '}') with
    | '}' :: behind => (ofHex? (rest.takeWhile (· != '}'))).map (·, behind)
    | _ => none
  | t =>
    if (t.take width).length = width then (ofHex? (t.take width)).map (·, t.drop width) else none

/-- The edges with a name in braces. -/
def namedEdges : List (String × Edge) :=
  [("start", .wordStart), ("end", .wordEnd), ("start-half", .openStart), ("end-half", .openEnd)]

/-- Reads what stands behind the `b` of a word edge: the name of a special one, or nothing. -/
def readWordEdge : Text → Option (Edge × Text)
  | '{' :: rest =>
    let isLetter (c : Char) : Bool := c.isAlpha || c = '-'
    match rest.takeWhile isLetter, rest.dropWhile isLetter with
    | [], _ => some (.word, '{' :: rest)
    | name, '}' :: behind => (namedEdges.lookup (String.ofList name)).map (·, behind)
    | _, _ => none
  | t => some (.word, t)

/-- What a character stands for behind a backslash, where that takes no more characters. -/
def escaped? : Char → Option Sign
  | 'd' => some (.anyOf .digits)
  | 's' => some (.anyOf .blanks)
  | 'w' => some (.anyOf .wordCharacters)
  | 'D' => some (.anyOf (.complement .digits))
  | 'S' => some (.anyOf (.complement .blanks))
  | 'W' => some (.anyOf (.complement .wordCharacters))
  | 'a' => some (.character '\x07')
  | 'f' => some (.character '\x0c')
  | 'n' => some (.character '\n')
  | 'r' => some (.character '\r')
  | 't' => some (.character '\t')
  | 'v' => some (.character '\x0b')
  | 'A' => some (.place .textStart)
  | 'z' => some (.place .textEnd)
  | 'B' => some (.place .noWord)
  | '<' => some (.place .wordStart)
  | '>' => some (.place .wordEnd)
  | c => if c.toNat < 0x80 && !c.isAlphanum then some (.character c) else none

/-- Reads what stands behind a backslash. -/
def readEscaped : Text → Option (Sign × Text)
  | 'x' :: rest => (readCodePoint 2 rest).map fun (c, rest) => (.character c, rest)
  | 'u' :: rest => (readCodePoint 4 rest).map fun (c, rest) => (.character c, rest)
  | 'U' :: rest => (readCodePoint 8 rest).map fun (c, rest) => (.character c, rest)
  | 'b' :: rest => (readWordEdge rest).map fun (e, rest) => (.place e, rest)
  | c :: rest => (escaped? c).map (·, rest)
  | [] => none

/-- A set in square brackets as far as it has been read. -/
structure OpenSet where
  negated : Bool
  /-- What the members are combined with, by the operation in front of them. -/
  combined : Option (CharSet × (CharSet → CharSet → CharSet)) := none
  members : CharSet := .nothing

namespace OpenSet

def add (s : OpenSet) (members : CharSet) : OpenSet :=
  { s with members := .union s.members members }

/-- The members, combined with what is in front of them. -/
def value (s : OpenSet) : CharSet :=
  match s.combined with
  | some (front, operation) => operation front s.members
  | none => s.members

/-- Goes on behind the sign of an operation. -/
def operate (s : OpenSet) (operation : CharSet → CharSet → CharSet) : OpenSet :=
  { s with combined := some (s.value, operation), members := .nothing }

def close (s : OpenSet) : CharSet := if s.negated then s.value.complement else s.value

/-- Reads the beginning of a set, behind its bracket. Hyphens and a closing bracket that stand
first are members. -/
def start (m : PatternModes) (t : Text) : OpenSet × Text :=
  let (negated, t) := match m.skip t with
    | '^' :: rest => (true, m.skip rest)
    | t => (false, t)
  match t with
  | '-' :: _ =>
    ({ negated, members := .single '-' }, t.dropWhile (· = '-'))
  | ']' :: rest => ({ negated, members := .single ']' }, rest)
  | _ => ({ negated }, t)

end OpenSet

/-- Reads the name of a set between colons, behind the bracket. -/
def readNamedSet : Text → Option (CharSet × Text)
  | ':' :: rest =>
    let (negated, rest) := match rest with
      | '^' :: rest => (true, rest)
      | _ => (false, rest)
    match rest.dropWhile (· != ':') with
    | ':' :: ']' :: behind =>
      (CharSet.named.lookup (String.ofList (rest.takeWhile (· != ':')))).map fun s =>
        (if negated then s.complement else s, behind)
    | _ => none
  | _ => none

/-- Reads a member of a set: a sign. -/
def readMember : Text → Option (Sign × Text)
  | '\\' :: rest => readEscaped rest
  | c :: rest => some (.character c, rest)
  | [] => none

/-- Reads a member of a set, or a run of members with a hyphen between its ends. -/
def readMembers (m : PatternModes) (t : Text) : Option (CharSet × Text) := do
  let (first, rest) ← readMember t
  match m.skip rest with
  | '-' :: behind =>
    match m.skip behind with
    | ']' :: _ | '-' :: _ => (first.members? m).map (·, rest)
    | behind =>
      match first, ← readMember behind with
      | .character first, (.character last, rest) =>
        if first ≤ last then some (m.cased (.run first last), rest) else none
      | _, _ => none
  | _ => (first.members? m).map (·, rest)

/-- Reads a set in at most so many steps, up to its closing bracket. -/
def readSetWithin (m : PatternModes) :
    Nat → OpenSet → List OpenSet → Text → Option (CharSet × Text)
  | 0, _, _, _ => none
  | n + 1, s, outer, t =>
    match m.skip t with
    | '[' :: rest =>
      match readNamedSet rest with
      | some (members, rest) => readSetWithin m n (s.add (m.cased members)) outer rest
      | none =>
        let (inner, rest) := OpenSet.start m rest
        readSetWithin m n inner (s :: outer) rest
    | ']' :: rest =>
      match outer with
      | around :: outer => readSetWithin m n (around.add s.close) outer rest
      | [] => some (s.close, rest)
    | '&' :: '&' :: rest => readSetWithin m n (s.operate .inter) outer rest
    | '-' :: '-' :: rest => readSetWithin m n (s.operate .without) outer rest
    | '~' :: '~' :: rest => readSetWithin m n (s.operate .symmetricDifference) outer rest
    | t =>
      match readMembers m t with
      | some (members, rest) => readSetWithin m n (s.add members) outer rest
      | none => none

/-- Reads a set behind its bracket. Each step takes a character, so there are steps enough. -/
def readSet (m : PatternModes) (t : Text) : Option (CharSet × Text) :=
  let (s, rest) := OpenSet.start m t
  readSetWithin m t.length s [] rest

/-- Reads a number among blanks. -/
def readCount (t : Text) : Option (Nat × Text) :=
  let digits := t.dropWhile isBlank
  (readNat? (digits.takeWhile Char.isDigit)).map
    (·, (digits.dropWhile Char.isDigit).dropWhile isBlank)

/-- Reads the numbers of a repetition, behind its brace. -/
def readBounds (m : PatternModes) (t : Text) : Option (Bounds × Text) := do
  let (least, rest) ← readCount (m.skip t)
  match rest with
  | '}' :: rest => some (⟨least, some least⟩, rest)
  | ',' :: rest =>
    match m.skip rest with
    | '}' :: rest => some (⟨least, none⟩, rest)
    | rest =>
      match ← readCount rest with
      | (most, '}' :: rest) => if least ≤ most then some (⟨least, some most⟩, rest) else none
      | _ => none
  | _ => none

/-- A group as far as it has been read. -/
structure Scope where
  modes : PatternModes
  /-- The alternatives in front of the last bar. -/
  earlier : Option Pattern := none
  /-- The items behind the bar, the last ones first. -/
  items : List Pattern := []
  /-- The item in front, which a repetition would be about. -/
  last : Option Pattern := none
  deriving DecidableEq, Repr

namespace Scope

def add (s : Scope) (p : Pattern) : Scope :=
  { s with items := s.last.toList ++ s.items, last := some p }

/-- Changes the modes. A repetition is not about such a change. -/
def switch (s : Scope) (m : PatternModes) : Scope :=
  { s with modes := m, items := s.last.toList ++ s.items, last := none }

/-- The pattern that has been read. -/
def pattern (s : Scope) : Pattern :=
  let alternative := (s.last.toList ++ s.items).foldl (fun rest p => p.followedBy rest) .empty
  match s.earlier with
  | some p => either p alternative
  | none => alternative

/-- Goes on behind a bar. -/
def bar (s : Scope) : Scope := { modes := s.modes, earlier := some s.pattern }

/-- Repeats the item in front. -/
def repeatLast? (s : Scope) (b : Bounds) : Option Scope :=
  s.last.map fun p => { s with last := some (.repeated p b) }

end Scope

/-- What stands behind the parenthesis that opens a group. -/
inductive Opening where
  /-- The group begins. -/
  | group (m : PatternModes)
  /-- There is no group: the modes change for the rest of the group around. -/
  | switch (m : PatternModes)
  deriving DecidableEq, Repr

/-- Reads letters of modes, of which those behind a hyphen are switched off. -/
def readModes (m : PatternModes) (off : Bool) : Text → Option (Opening × Text)
  | ':' :: rest => some (.group m, rest)
  | ')' :: rest => some (.switch m, rest)
  | '-' :: letter :: rest =>
    if off then none
    else
      match m.switch? letter false with
      | some m => readModes m true rest
      | none => none
  | letter :: rest =>
    match m.switch? letter (!off) with
    | some m => readModes m off rest
    | none => none
  | [] => none

/-- Reads the name of a group up to the bracket behind it. -/
def readGroupName (t : Text) : Option Text :=
  let isPart (c : Char) : Bool :=
    c.isAlphanum || c = '_' || c = '.' || c = '[' || c = ']' || 0x80 ≤ c.toNat
  match t, t.dropWhile isPart with
  | first :: _, '>' :: rest =>
    if first.isAlpha || first = '_' || 0x80 ≤ first.toNat then some rest else none
  | _, _ => none

/-- Reads what stands behind an opening parenthesis and is no part of the group. -/
def readOpening (m : PatternModes) (t : Text) : Option (Opening × Text) :=
  match m.skip t with
  | '?' :: 'P' :: '<' :: rest | '?' :: '<' :: rest => (readGroupName rest).map (.group m, ·)
  | '?' :: ')' :: _ => none
  | '?' :: rest => readModes m false rest
  | t => some (.group m, t)

/-- Leaves out the sign that makes a repetition take as little as it can. -/
def skipLazy : Text → Text
  | '?' :: rest => rest
  | t => t

/-- Takes one sign of a group, or a set, or a repetition. -/
def Scope.take (s : Scope) : Text → Option (Scope × Text)
  | '*' :: rest => (s.repeatLast? ⟨0, none⟩).map (·, skipLazy rest)
  | '+' :: rest => (s.repeatLast? ⟨1, none⟩).map (·, skipLazy rest)
  | '?' :: rest => (s.repeatLast? ⟨0, some 1⟩).map (·, skipLazy rest)
  | '{' :: rest => do
    let (bounds, rest) ← readBounds s.modes rest
    (s.repeatLast? bounds).map (·, skipLazy (s.modes.skip rest))
  | '[' :: rest => (readSet s.modes rest).map fun (members, rest) => (s.add (oneOf members), rest)
  | '.' :: rest => some (s.add (oneOf s.modes.point), rest)
  | '^' :: rest => some (s.add (edge (if s.modes.byLine then .lineStart else .textStart)), rest)
  | '$' :: rest => some (s.add (edge (if s.modes.byLine then .lineEnd else .textEnd)), rest)
  | '\\' :: rest =>
    (readEscaped rest).map fun (sign, rest) => (s.add (sign.pattern s.modes), rest)
  | c :: rest => some (s.add ((Sign.character c).pattern s.modes), rest)
  | [] => none

/-- Reads a pattern in at most so many steps, given the groups around. -/
def readWithin : Nat → Scope → List Scope → Text → Option Pattern
  | 0, _, _, _ => none
  | n + 1, s, outer, t =>
    match s.modes.skip t with
    | [] => if outer.isEmpty then some s.pattern else none
    | '(' :: rest =>
      match readOpening s.modes rest with
      | some (.group modes, rest) => readWithin n { modes } (s :: outer) rest
      | some (.switch modes, rest) => readWithin n (s.switch modes) outer rest
      | none => none
    | ')' :: rest =>
      match outer with
      | around :: outer => readWithin n (around.add s.pattern) outer rest
      | [] => none
    | '|' :: rest => readWithin n s.bar outer rest
    | t =>
      match s.take t with
      | some (s, rest) => readWithin n s outer rest
      | none => none

/-- Reads a pattern. Each step but the last takes a character, so there are steps enough. -/
def read? (t : Text) : Option Pattern := readWithin (t.length + 1) { modes := {} } [] t

example : (read? "^line .: (indent|number)".toList).map (·.occursIn "line 0: number".toList) =
    some true := by decide +kernel

example : (read? "(?i:[^a-c]d\x7b2\x7d)$".toList).map (·.occursIn "xdD".toList) = some true := by
  decide +kernel

example : read? "a)".toList = none ∧ read? "*".toList = none := by decide +kernel

end Pattern
end LineTree
