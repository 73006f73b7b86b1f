import LineTree.Bracket

/-!
# Kinds of token

The syntactic roles of the pieces of a line. Three groups of kinds share their behaviour and carry
what tells their members apart: quoted literals, bracket groups, and the kinds that a later
analysis gives to names and operators. Main statement: `Kind.ofName?_eq_some_iff`.
-/
namespace LineTree

/-- The quotes: strings stand in double quotes, file names in single ones. -/
inductive Quote where
  | double
  | single
  deriving DecidableEq, Repr

def Quote.mark : Quote → Char
  | double => '"'
  | single => '\''

/-- The kinds that an analysis after the scan gives to tokens. -/
inductive Meaning where
  | typeName
  | keyword
  | variableName
  | functionName
  | methodName
  | enumCase
  | boolean
  | null
  | compoundAssignment
  | namespaceSeparator
  | namespaceName
  deriving DecidableEq, Repr

/-- The syntactic role of a token. -/
inductive Kind where
  /-- A whole line, the root of its tree. -/
  | line
  /-- The tabs at the front of a line. -/
  | indent
  /-- Space between tokens, possibly empty. -/
  | whitespace
  | identifier
  /-- A name behind a label mark. -/
  | label
  /-- A name with a leading `#`. -/
  | command
  | number
  /-- Two numbers with a comma between them. -/
  | position
  | quoted (quote : Quote)
  /-- A backslash in a quoted literal and the character behind it. -/
  | escape
  /-- Two slashes and the rest of the line. -/
  | comment
  /-- Three slashes and the rest of the line. -/
  | docComment
  /-- The text of a comment behind its slashes. -/
  | commentContent
  | slash
  /-- A single colon. -/
  | methodCall
  /-- Two colons. -/
  | labelMark
  | dot
  | comma
  | lambdaHat
  | assignment
  /-- Any other symbol of arithmetic, comparison or logic. -/
  | operator
  | brackets (bracket : Bracket)
  /-- A character without a role of its own. -/
  | unresolved
  | semantic (meaning : Meaning)
  deriving DecidableEq, Repr

namespace Kind

def all : List Kind :=
  [line, indent, whitespace, identifier, label, command, number, position,
    quoted .double, quoted .single, escape, comment, docComment, commentContent,
    slash, methodCall, labelMark, dot, comma, lambdaHat, assignment, operator,
    brackets .square, brackets .round, brackets .curly, unresolved,
    semantic .typeName, semantic .keyword, semantic .variableName, semantic .functionName,
    semantic .methodName, semantic .enumCase, semantic .boolean, semantic .null,
    semantic .compoundAssignment, semantic .namespaceSeparator, semantic .namespaceName]

/-- The name in dumps. -/
def name : Kind → String
  | line => "line"
  | indent => "indent"
  | whitespace => "ignorable-whitespace"
  | identifier => "identifier"
  | label => "label"
  | command => "command-name"
  | number => "number-literal"
  | position => "position-literal"
  | quoted .double => "string-literal"
  | quoted .single => "file-literal"
  | escape => "escape-sequence"
  | comment => "comment"
  | docComment => "doc-comment"
  | commentContent => "comment-content"
  | slash => "slash-operator"
  | methodCall => "method-call-operator"
  | labelMark => "label-prefix-operator"
  | dot => "dot"
  | comma => "comma"
  | lambdaHat => "lambda-hat-operator"
  | assignment => "assignment-operator"
  | operator => "operator"
  | brackets .square => "square-brackets"
  | brackets .round => "parentheses"
  | brackets .curly => "curly-braces"
  | unresolved => "unresolved"
  | semantic .typeName => "type"
  | semantic .keyword => "keyword"
  | semantic .variableName => "variable"
  | semantic .functionName => "function"
  | semantic .methodName => "method"
  | semantic .enumCase => "enum-case"
  | semantic .boolean => "boolean-literal"
  | semantic .null => "null-literal"
  | semantic .compoundAssignment => "assignment-compound"
  | semantic .namespaceSeparator => "namespace-separator"
  | semantic .namespaceName => "namespace"

/-- The kind of the given name. -/
def ofName? (name : String) : Option Kind := all.find? (·.name = name)

theorem mem_all (k : Kind) : k ∈ all := by
  cases k
  case quoted q => cases q <;> decide
  case brackets b => cases b <;> decide
  case semantic m => cases m <;> decide
  all_goals decide

/-- Names tell kinds apart. -/
theorem ofName?_eq_some_iff {name : String} {k : Kind} : ofName? name = some k ↔ name = k.name := by
  constructor
  · intro h
    have hk := List.find?_some h
    simpa [eq_comm] using hk
  · rintro rfl
    have hall : ∀ q ∈ all, ofName? q.name = some q := by decide +kernel
    exact hall k k.mem_all

/-- The bracket of a bracket group. -/
def bracket? : Kind → Option Bracket
  | brackets b => some b
  | _ => none

def isBracket (k : Kind) : Bool := k.bracket?.isSome

/-- Kinds that no scan gives to a token. -/
def isSemantic : Kind → Bool
  | semantic _ => true
  | _ => false

end Kind
end LineTree
