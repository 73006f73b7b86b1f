import LineTree.Diagnostic.Snippet
import LineTree.Proofs.Numeral

/-!
# The rows of a snippet

A snippet has one row for the message, one for the place, one for the line and one for the marks
below it, and a hint behind them. The number of the line has as many columns in the third row as
there are spaces in the fourth, so the marks stand below the characters of the range.
Main statement: `Diagnostic.rows_point_at_range`.
-/
namespace LineTree.Diagnostic

variable {d : Diagnostic} {lineText before marked after : Text}

def rows (d : Diagnostic) (lineText : Text) : List Text := Text.split '\n' (d.snippet lineText)

section Row

variable (d : Diagnostic) (lineText : Text)

/-- The number of the line, counted from 1. -/
def number : Text := writeNat (d.line + 1)

def messageRow : Text := d.severity.name.toList ++ ": ".toList ++ d.message

def placeRow (column : Nat) : Text :=
  " --> line ".toList ++ d.number ++ ", col ".toList ++ writeNat column

def lineRow : Text := d.number ++ " | ".toList ++ untabbed lineText

/-- What stands in front of the caret, below the number and below the line. -/
def margin (before : Nat) : Text :=
  List.replicate d.number.length ' ' ++ " | ".toList ++ List.replicate before ' '

def hintRows : List Text :=
  match d.hint with
  | none => []
  | some hint => Text.split '\n' ("help: ".toList ++ hint)

end Row

theorem newline_notMem_digits {t : Text} (digits : AllDigits t) : '\n' ∉ t :=
  fun member => absurd (digits '\n' member) (by decide)

theorem newline_notMem_messageRow (message : '\n' ∉ d.message) : '\n' ∉ d.messageRow := by
  have name : '\n' ∉ d.severity.name.toList := by cases d.severity <;> decide +kernel
  have colon : '\n' ∉ ": ".toList := by decide +kernel
  unfold messageRow
  simp only [List.mem_append, name, colon, message, or_self, not_false_eq_true]

theorem newline_notMem_placeRow (column : Nat) : '\n' ∉ d.placeRow column := by
  have line := newline_notMem_digits (allDigits_writeNat (d.line + 1))
  have digits := newline_notMem_digits (allDigits_writeNat column)
  have arrow : '\n' ∉ " --> line ".toList := by decide +kernel
  have comma : '\n' ∉ ", col ".toList := by decide +kernel
  unfold placeRow number
  simp only [List.mem_append, arrow, line, comma, digits, or_self, not_false_eq_true]

theorem newline_notMem_lineRow (single : '\n' ∉ lineText) : '\n' ∉ d.lineRow lineText := by
  have line := newline_notMem_digits (allDigits_writeNat (d.line + 1))
  have shown : '\n' ∉ untabbed lineText := by
    intro member
    obtain ⟨c, inside, same⟩ := List.mem_map.1 member
    split at same
    · cases same
    · exact single (same ▸ inside)
  simp [lineRow, number, line, shown]

theorem newline_notMem_marks (before marked : Nat) :
    '\n' ∉ d.margin before ++ '^' :: List.replicate marked '~' := by
  simp [margin]

/-- The rows of a snippet; the hint may have several. -/
theorem rows_eq (message : '\n' ∉ d.message) (single : '\n' ∉ lineText) : d.rows lineText =
    [d.messageRow, d.placeRow (d.charsBefore lineText + 1), d.lineRow lineText,
      d.margin (d.charsBefore lineText) ++
        '^' :: List.replicate (max (d.charsMarked lineText) 1 - 1) '~'] ++ d.hintRows := by
  have marks := d.newline_notMem_marks (d.charsBefore lineText)
    (max (d.charsMarked lineText) 1 - 1)
  have written : d.snippet lineText = d.messageRow ++ '\n' ::
      (d.placeRow (d.charsBefore lineText + 1) ++ '\n' :: (d.lineRow lineText ++ '\n' ::
        (d.margin (d.charsBefore lineText) ++
            '^' :: List.replicate (max (d.charsMarked lineText) 1 - 1) '~' ++
          (d.hint.map fun hint => '\n' :: ("help: ".toList ++ hint)).getD []))) := by
    have arrow : "\n --> line ".toList = '\n' :: " --> line ".toList := by decide +kernel
    have help : "\nhelp: ".toList = '\n' :: "help: ".toList := by decide +kernel
    have colon : ": ".toList = [':', ' '] := by decide +kernel
    have rule : " | ".toList = [' ', '|', ' '] := by decide +kernel
    unfold snippet messageRow placeRow lineRow margin underline number
    rw [arrow, help, colon, rule]
    cases d.hint <;>
      simp only [List.append_assoc, List.cons_append, List.nil_append, Option.map_none,
        Option.map_some, Option.getD_none, Option.getD_some]
  rw [rows, written, Text.split_append (newline_notMem_messageRow message),
    Text.split_append (newline_notMem_placeRow _), Text.split_append (newline_notMem_lineRow single)]
  unfold hintRows
  cases d.hint with
  | none =>
    rw [Option.map_none, Option.getD_none, List.append_nil, Text.split_of_notMem marks]
    rfl
  | some hint =>
    rw [Option.map_some, Option.getD_some, Text.split_append marks]
    rfl

theorem charsBefore_eq (place : lineText = before ++ marked ++ after)
    (start : Text.byteLength before = d.start) : d.charsBefore lineText = before.length := by
  have cut : Text.splitAtByte? lineText d.start = some (before, marked ++ after) :=
    Text.splitAtByte?_eq_some_iff.2 ⟨by rw [place, List.append_assoc], start⟩
  rw [charsBefore, cut]

theorem charsMarked_eq (place : lineText = before ++ marked ++ after)
    (start : Text.byteLength before = d.start)
    (stop : d.start + Text.byteLength marked = d.stop) :
    d.charsMarked lineText = marked.length := by
  have slice : Text.slice? lineText d.start (max d.stop d.start) = some marked :=
    Text.slice?_eq_some_iff.2 ⟨before, after, place, start, by omega⟩
  rw [charsMarked, slice]

/-- A range that begins nowhere in the line has the whole line in front of it. -/
theorem charsBefore_le : d.charsBefore lineText ≤ lineText.length := by
  unfold charsBefore
  split
  · next before behind cut =>
    obtain ⟨same, -⟩ := Text.splitAtByte?_eq_some_iff.1 cut
    simp [same]
  · exact le_rfl

theorem length_margin (before : Nat) :
    (d.margin before).length = d.number.length + 3 + before := by
  simp [margin]
  omega

/-- The gutter has one bar; the number of the line is left out of it. -/
theorem count_margin (before : Nat) : (d.margin before).count '|' = 1 := by
  simp [margin, List.count_replicate]

theorem mem_margin {c : Char} {before : Nat} (member : c ∈ d.margin before) : c = ' ' ∨ c = '|' := by
  simp only [margin, List.mem_append, List.mem_replicate] at member
  simp at member
  tauto

/-- The margin ends below the character in front of the range. -/
theorem drop_lineRow (place : lineText = before ++ marked ++ after) :
    (d.lineRow lineText).drop (d.margin before.length).length = untabbed (marked ++ after) := by
  have front : (d.number ++ " | ".toList ++ untabbed before).length =
      (d.margin before.length).length := by
    rw [length_margin]
    simp [untabbed]
    omega
  have row : d.lineRow lineText =
      d.number ++ " | ".toList ++ untabbed before ++ untabbed (marked ++ after) := by
    rw [lineRow, place, List.append_assoc before]
    simp only [untabbed, List.map_append, List.append_assoc]
  rw [row, ← front, List.drop_left]

/-- A snippet points at its range. The second row has the number of the line and the column, both
from 1, the third row the line. In the fourth row the caret stands below the first character of the
range, or behind the line if the range begins there, and every other character of the range has a
tilde. Where the line does not have the range, there is still a caret below the line or just
behind it. -/
theorem rows_point_at_range (d : Diagnostic) (lineText : Text) (message : '\n' ∉ d.message)
    (single : '\n' ∉ lineText) :
    let rows := Text.split '\n' (d.snippet lineText)
    let number := writeNat (d.line + 1)
    let place (column : Nat) := " --> line ".toList ++ number ++ ", col ".toList ++ writeNat column
    let shown (t : Text) : Text := t.map fun c => if c = '\t' then ' ' else c
    let row := number ++ " | ".toList ++ shown lineText
    rows[2]? = some row ∧
    (∀ before marked after, lineText = before ++ marked ++ after →
      Text.byteLength before = d.start → d.start + Text.byteLength marked = d.stop →
      rows[1]? = some (place (before.length + 1)) ∧
      ∃ margin, rows[3]? = some (margin ++ '^' :: List.replicate (marked.length - 1) '~') ∧
        margin.length = number.length + 3 + before.length ∧
        row.drop margin.length = shown (marked ++ after) ∧
        (∀ c ∈ margin, c = ' ' ∨ c = '|') ∧ margin.count '|' = 1) ∧
    ∃ before ≤ lineText.length, ∃ tildes, rows[1]? = some (place (before + 1)) ∧
      rows[3]? = some (List.replicate number.length ' ' ++ " | ".toList ++
        List.replicate before ' ' ++ '^' :: List.replicate tildes '~') := by
  intro rows number place shown row
  have all : rows = d.rows lineText := rfl
  rw [rows_eq message single] at all
  have second : rows[1]? = some (d.placeRow (d.charsBefore lineText + 1)) := by
    rw [all]
    rfl
  have third : rows[2]? = some (d.lineRow lineText) := by
    rw [all]
    rfl
  have fourth : rows[3]? = some (d.margin (d.charsBefore lineText) ++
      '^' :: List.replicate (max (d.charsMarked lineText) 1 - 1) '~') := by
    rw [all]
    rfl
  refine ⟨third, ?_, d.charsBefore lineText, charsBefore_le, _, second, fourth⟩
  intro before marked after whole start stop
  have width : max marked.length 1 - 1 = marked.length - 1 := by omega
  rw [charsBefore_eq whole start] at second
  rw [charsBefore_eq whole start, charsMarked_eq whole start stop, width] at fourth
  exact ⟨second, d.margin before.length, fourth, length_margin _, drop_lineRow whole,
    fun c => mem_margin, count_margin _⟩

/-- Neither the width of a tab, nor the bytes of a character, nor the digits of the number of the
line move the caret. -/
theorem rows_point_at_range_wide :
    let d : Diagnostic := { line := 99, start := 3, stop := 7, message := "no €".toList }
    let rows := Text.split '\n' (d.snippet "\té€a𝄞".toList)
    '\n' ∉ d.message ∧ '\n' ∉ "\té€a𝄞".toList ∧ rows[1]? = some " --> line 100, col 3".toList ∧
    rows[2]? = some "100 |  é€a𝄞".toList ∧
    ∃ margin : Text, rows[3]? = some (margin ++ ['^', '~']) ∧ margin.length = 8 := by
  intro d rows
  have message : '\n' ∉ d.message := by decide +kernel
  have single : '\n' ∉ "\té€a𝄞".toList := by decide +kernel
  obtain ⟨third, inside, -⟩ := rows_point_at_range d "\té€a𝄞".toList message single
  obtain ⟨second, margin, fourth, width, -⟩ := inside ['\t', 'é'] ['€', 'a'] ['𝄞']
    (by decide +kernel) (by decide +kernel) (by decide +kernel)
  have column : margin.length = 8 := width.trans (by decide +kernel)
  exact ⟨message, single, second.trans (by decide +kernel), third.trans (by decide +kernel), margin,
    fourth, column⟩

end LineTree.Diagnostic
