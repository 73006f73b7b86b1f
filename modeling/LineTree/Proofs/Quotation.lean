import LineTree.Proofs.Decoding
import LineTree.Proofs.Reports

/-!
# Texts written as literals

A text between two quotes, with a backslash in front of every backslash and every such quote in it,
is scanned as one literal and decoded as that text: behind a backslash no character has a role, and
without one neither a backslash nor the quote is left. Main statements: `Scan.run_written`,
`decodeUntil_written`, `Quote.ofText_write`.
-/
namespace LineTree

namespace Quote

/-- The character as it is written between the quotes. -/
def writeChar (q : Quote) (c : Char) : Text := if c = '\\' ∨ c = q.mark then ['\\', c] else [c]

/-- The text, written as a literal. -/
def write (q : Quote) (t : Text) : Text := q.mark :: (t.flatMap q.writeChar ++ [q.mark])

/-- The escape at the offset, if the character is written as one. -/
def escapeOf (q : Quote) (line offset : Nat) (c : Char) : List Token :=
  if c = '\\' ∨ c = q.mark then [⟨line, offset, ['\\', c], .escape, [], none⟩] else []

/-- The escapes in a text whose written form begins at the offset, one for each backslash and each
quote. -/
def escapesFrom (q : Quote) (line offset : Nat) : Text → List Token
  | [] => []
  | c :: rest =>
    q.escapeOf line offset c ++ q.escapesFrom line (offset + Text.byteLength (q.writeChar c)) rest

end Quote

namespace Scan

/-- The innermost token takes the text with the tokens in it. -/
def takeWith (s : Scan) (text : Text) (tokens : List Token) : Scan :=
  { s with
    offset := s.offset + Text.byteLength text
    top := { s.top with
      read := text.reverse ++ s.top.read
      done := tokens.reverse ++ s.top.done }
    events := (tokens.map ScanEvent.closed).reverse ++ s.events }

variable {q : Quote} {s : Scan}

theorem takeWith_takeWith (s : Scan) (a b : Text) (tokens others : List Token) :
    (s.takeWith a tokens).takeWith b others = s.takeWith (a ++ b) (tokens ++ others) := by
  simp [takeWith, Nat.add_assoc]

/-- A backslash and the character behind it are an escape, and any other character but the quote is
part of the literal as it is. -/
theorem run_writeChar (kind : s.top.kind = .quoted q) (c : Char) :
    s.run (q.writeChar c) = s.takeWith (q.writeChar c) (q.escapeOf s.line s.offset c) := by
  unfold Quote.writeChar Quote.escapeOf
  by_cases special : c = '\\' ∨ c = q.mark
  · -- The escape is open for one character, whichever it is.
    have opened : s.step '\\' = (s.begin .escape).take '\\' := by
      have effect : Kind.effect (.quoted q) '\\' = .nest .escape := rfl
      rw [step, kind, effect]
    have closed : ((s.begin .escape).take '\\').step c =
        (((s.begin .escape).take '\\').take c).close := rfl
    rw [if_pos special, if_pos special, run_cons, run_cons, run_nil, opened, closed]
    simp [takeWith, begin, take, close, OpenToken.toToken, Nat.add_assoc]
  · have effect : Kind.effect (.quoted q) c = .extend := by
      rw [not_or] at special
      simp [Kind.effect, special]
    rw [if_neg special, if_neg special, run_cons, run_nil, step, kind, effect]
    simp [takeWith, take]

/-- Written text is part of the literal that is open, and holds an escape for each backslash and each
quote. -/
theorem run_written (kind : s.top.kind = .quoted q) (t : Text) :
    s.run (t.flatMap q.writeChar) =
      s.takeWith (t.flatMap q.writeChar) (q.escapesFrom s.line s.offset t) := by
  induction t generalizing s with
  | nil => rfl
  | cons c t ih =>
    have later := ih (s := s.takeWith (q.writeChar c) (q.escapeOf s.line s.offset c)) kind
    rw [List.flatMap_cons, run_append, run_writeChar kind, later, takeWith_takeWith]
    rfl

/-- A quote at the front of a line begins a literal. -/
theorem step_start_mark (q : Quote) (line : Nat) :
    let indent : Token := ⟨line, 0, [], .indent, [], none⟩
    (start line).step q.mark =
      { line, offset := 1, top := { kind := .quoted q, start := 0, read := [q.mark] },
        below := [{ kind := .line, start := 0, done := [indent] }], events := [.closed indent] } := by
  cases q <;> rfl

/-- The quote that is open ends its literal. -/
theorem step_mark (kind : s.top.kind = .quoted q) :
    s.step q.mark = ((s.take q.mark).close).begin .whitespace := by
  have effect : Kind.effect (.quoted q) q.mark = .endWithGap := by cases q <;> rfl
  rw [step, kind, effect]

end Scan

/-- Decoding takes away the backslashes that writing has put in, and goes on to the closing quote. -/
theorem decodeUntil_written (q : Quote) (t : Text) :
    decodeUntil q.mark (t.flatMap q.writeChar ++ [q.mark]) = (t, [q.mark]) := by
  induction t with
  | nil => exact decodeUntil_mark q []
  | cons c t ih =>
    rw [List.flatMap_cons, List.append_assoc, Quote.writeChar]
    split
    · next special =>
      -- Neither of the characters that get a backslash stands for another one behind it.
      have plain : unescape c = c := by
        rcases special with rfl | rfl
        · rfl
        · cases q <;> rfl
      rw [List.cons_append, List.singleton_append, decodeUntil_escape, ih, plain]
    · next ordinary =>
      rw [List.singleton_append, decodeUntil_plain (not_or.1 ordinary), ih]

/-- At the end of a written text the literal is closed, and an empty whitespace token is open. -/
theorem Scan.run_write (q : Quote) (t : Text) (line : Nat) :
    let text := q.write t
    let escapes := q.escapesFrom line 1 t
    let indent : Token := ⟨line, 0, [], .indent, [], none⟩
    let literal : Token := ⟨line, 0, text, .quoted q, escapes, none⟩
    (start line).run text =
      { line, offset := Text.byteLength text,
        top := { kind := .whitespace, start := Text.byteLength text },
        below := [{ kind := .line, start := 0, read := text.reverse, done := [literal, indent] }],
        events := ((indent :: (escapes ++ [literal])).map ScanEvent.closed).reverse } := by
  intro text escapes indent literal
  have spelled : text = q.mark :: (t.flatMap q.writeChar ++ [q.mark]) := rfl
  have reversed : q.mark :: ((t.flatMap q.writeChar).reverse ++ [q.mark]) = text.reverse := by
    simp [spelled]
  have size : 1 + Text.byteLength (t.flatMap q.writeChar) + q.mark.utf8Size =
      Text.byteLength text := by
    have mark : q.mark.utf8Size = 1 := by cases q <;> rfl
    simp only [spelled, Text.byteLength_cons, Text.byteLength_append, Text.byteLength_nil, mark]
    omega
  have read : (start line).run text =
      ((start line).step q.mark).run (t.flatMap q.writeChar ++ [q.mark]) := rfl
  rw [read, step_start_mark, run_append, run_written rfl, run_cons, run_nil, step_mark rfl]
  simp [takeWith, take, close, begin, OpenToken.toToken, size, reversed, literal, indent, escapes]

/-- A text that is written as a literal is read back. Nothing is reported; the line is the literal,
between an empty indent and empty whitespace; the escapes in the literal are those of the backslashes
and the quotes in the text, each at its place; and its value is the text. -/
theorem Quote.ofText_write (q : Quote) (t : Text) (line : Nat) (report : Bool) :
    let text := q.write t
    let literal : Token := ⟨line, 0, text, .quoted q, q.escapesFrom line 1 t, none⟩
    (ScannedLine.ofText line text report).diagnostics = [] ∧
    (ScannedLine.ofText line text report).tree =
      ⟨line, 0, text, .line, [⟨line, 0, [], .indent, [], none⟩, literal,
        ⟨line, Text.byteLength text, [], .whitespace, [], none⟩], none⟩ ∧
    literal.decoded? = some (.string t) := by
  intro text literal
  have scanned := Scan.run_write q t line
  refine ⟨?_, ?_, ?_⟩
  · have silent : ((Scan.start line).run text).unclosed = [] := by
      rw [scanned]
      rfl
    rw [ScannedLine.diagnostics_eq, silent, ite_self, List.append_nil, scanned, Scan.reports]
    dsimp only
    rw [List.reverse_reverse, ScanEvent.filterMap_closed]
  · rw [ScannedLine.tree_eq, scanned]
    simp [OpenToken.collapse, OpenToken.absorb, OpenToken.toToken, literal, text]
  · have spelled : text = q.mark :: (t.flatMap q.writeChar ++ [q.mark]) := rfl
    have body : decodeQuoted q text = t := by
      rw [spelled, decodeQuoted, if_pos rfl, ← decodeUntil_fst, decodeUntil_written]
    rw [Token.decoded?]
    exact congrArg (fun t => some (Value.string t)) body

end LineTree
