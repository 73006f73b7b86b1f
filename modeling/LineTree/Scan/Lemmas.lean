import LineTree.Scan.Basic

/-!
# The text behind a scan

The characters that a scan has read can be recovered from its open tokens: no step loses or
reorders one. Main statements: `Scan.consumed_run`, `Scan.offset_run`.
-/
namespace LineTree.Scan

/-- The characters read so far. -/
def consumed (s : Scan) : Text := (s.openTokens.flatMap (·.read)).reverse

@[simp] theorem consumed_start (line : Nat) : (start line).consumed = [] := rfl

@[simp] theorem consumed_take (s : Scan) (c : Char) : (s.take c).consumed = s.consumed ++ [c] := by
  simp [consumed, openTokens, take]

@[simp] theorem consumed_begin (s : Scan) (kind : Kind) : (s.begin kind).consumed = s.consumed := by
  simp [consumed, openTokens, begin]

@[simp] theorem consumed_become (s : Scan) (kind : Kind) :
    (s.become kind).consumed = s.consumed := by
  simp [consumed, openTokens, become]

@[simp] theorem consumed_report (s : Scan) (p : Problem) (offset size : Nat) :
    (s.report p offset size).consumed = s.consumed := rfl

@[simp] theorem consumed_close (s : Scan) : s.close.consumed = s.consumed := by
  unfold close
  split
  · rfl
  · next parent below h =>
    simp [consumed, openTokens, h]

@[simp] theorem offset_take (s : Scan) (c : Char) :
    (s.take c).offset = s.offset + c.utf8Size := rfl

@[simp] theorem offset_begin (s : Scan) (kind : Kind) : (s.begin kind).offset = s.offset := rfl

@[simp] theorem offset_become (s : Scan) (kind : Kind) : (s.become kind).offset = s.offset := rfl

@[simp] theorem offset_report (s : Scan) (p : Problem) (offset size : Nat) :
    (s.report p offset size).offset = s.offset := rfl

@[simp] theorem offset_close (s : Scan) : s.close.offset = s.offset := by
  unfold close
  split <;> rfl

theorem consumed_closeBracket (s : Scan) (b : Bracket) (c : Char) :
    (s.closeBracket b c).consumed = s.consumed ++ [c] := by
  unfold closeBracket
  split <;> simp

theorem consumed_beginWith (s : Scan) (previous : Kind) (c : Char) :
    (s.beginWith previous c).consumed = s.consumed ++ [c] := by
  simp only [beginWith]
  split <;> simp

theorem offset_closeBracket (s : Scan) (b : Bracket) (c : Char) :
    (s.closeBracket b c).offset = s.offset + c.utf8Size := by
  unfold closeBracket
  split <;> simp

theorem offset_beginWith (s : Scan) (previous : Kind) (c : Char) :
    (s.beginWith previous c).offset = s.offset + c.utf8Size := by
  simp only [beginWith]
  split <;> simp

theorem consumed_step (s : Scan) (c : Char) : (s.step c).consumed = s.consumed ++ [c] := by
  unfold step
  split
  · exact consumed_take s c
  · split
    · rw [consumed_closeBracket, consumed_close]
    · rw [consumed_beginWith, consumed_close]
  · simp
  · simp
  · simp
  · simp

theorem offset_step (s : Scan) (c : Char) : (s.step c).offset = s.offset + c.utf8Size := by
  unfold step
  split
  · exact offset_take s c
  · split
    · rw [offset_closeBracket, offset_close]
    · rw [offset_beginWith, offset_close]
  · simp
  · simp
  · simp
  · simp

/-- A scan keeps every character, in order. -/
theorem consumed_run (s : Scan) (text : Text) : (s.run text).consumed = s.consumed ++ text := by
  induction text generalizing s with
  | nil => simp
  | cons c text ih => rw [run_cons, ih, consumed_step, List.append_assoc, List.singleton_append]

theorem offset_run (s : Scan) (text : Text) :
    (s.run text).offset = s.offset + Text.byteLength text := by
  induction text generalizing s with
  | nil => simp
  | cons c text ih => rw [run_cons, ih, offset_step, Text.byteLength_cons, Nat.add_assoc]

end LineTree.Scan
