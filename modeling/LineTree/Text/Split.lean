import LineTree.Text.Bytes

/-!
# Splitting a text

A text falls into pieces at every separator, so `n` separators make `n + 1` pieces. Lines
are the pieces between newlines; a carriage return belongs to its line. Main statements:
`Text.join_split`, `Text.length_split`, `Text.notMem_of_mem_split`, `Text.split_append`.
-/
namespace LineTree.Text

/-- The first piece and the pieces after it. -/
def splitFirst (separator : Char) (t : Text) : Text × List Text :=
  t.foldr (fun c (first, others) =>
    if c = separator then ([], first :: others) else (c :: first, others)) ([], [])

/-- The pieces in order; there is always at least one. -/
def split (separator : Char) (t : Text) : List Text :=
  (splitFirst separator t).1 :: (splitFirst separator t).2

/-- Puts a separator between each two neighbours. -/
def join (separator : Char) : List Text → Text
  | [] => []
  | [piece] => piece
  | piece :: next :: rest => piece ++ separator :: join separator (next :: rest)

theorem split_nil (separator : Char) : split separator [] = [[]] := rfl

theorem split_separator (separator : Char) (t : Text) :
    split separator (separator :: t) = [] :: split separator t := by
  simp [split, splitFirst]

theorem split_cons {separator c : Char} (t : Text) (h : c ≠ separator) :
    split separator (c :: t) = (c :: (splitFirst separator t).1) :: (splitFirst separator t).2 := by
  simp [split, splitFirst, h]

theorem join_split (separator : Char) (t : Text) : join separator (split separator t) = t := by
  induction t with
  | nil => rfl
  | cons c t ih =>
    by_cases h : c = separator
    · subst h
      have hj : join c ([] :: split c t) = [] ++ c :: join c (split c t) := rfl
      rw [split_separator, hj, ih, List.nil_append]
    · rw [split_cons t h]
      unfold split at ih
      revert ih
      cases (splitFirst separator t).2 <;> simp [join]

theorem length_split (separator : Char) (t : Text) :
    (split separator t).length = t.count separator + 1 := by
  induction t with
  | nil => rfl
  | cons c t ih =>
    by_cases h : c = separator
    · subst h
      rw [split_separator, List.length_cons, ih, List.count_cons_self]
    · rw [split_cons t h, List.count_cons_of_ne h]
      simpa [split] using ih

theorem notMem_of_mem_split {separator : Char} {t piece : Text} (h : piece ∈ split separator t) :
    separator ∉ piece := by
  induction t generalizing piece with
  | nil => simp_all [split_nil]
  | cons c t ih =>
    by_cases hc : c = separator
    · subst hc
      rw [split_separator] at h
      rcases List.mem_cons.1 h with rfl | h
      · simp
      · exact ih h
    · rw [split_cons t hc] at h
      rcases List.mem_cons.1 h with rfl | h
      · have hf : separator ∉ (splitFirst separator t).1 := ih (by simp [split])
        simp [hf, Ne.symm hc]
      · exact ih (by simp [split, h])

/-- Characters other than the separator lengthen the first piece. -/
theorem splitFirst_append {separator : Char} {t : Text} (h : separator ∉ t) (rest : Text) :
    splitFirst separator (t ++ rest) =
      (t ++ (splitFirst separator rest).1, (splitFirst separator rest).2) := by
  induction t with
  | nil => rfl
  | cons c t ih =>
    rw [List.mem_cons, not_or] at h
    have inner := ih h.2
    unfold splitFirst at inner ⊢
    rw [List.cons_append, List.foldr_cons, inner]
    exact if_neg (Ne.symm h.1)

/-- A text without separators is one piece. -/
theorem split_of_notMem {separator : Char} {t : Text} (h : separator ∉ t) :
    split separator t = [t] := by
  have whole := splitFirst_append h []
  rw [List.append_nil] at whole
  rw [split, whole]
  exact congrArg (· :: []) (List.append_nil t)

/-- The first piece ends at the first separator. -/
theorem split_append {separator : Char} {t : Text} (h : separator ∉ t) (rest : Text) :
    split separator (t ++ separator :: rest) = t :: split separator rest := by
  have piece : splitFirst separator (separator :: rest) = ([], split separator rest) := by
    simp [split, splitFirst]
  rw [split, splitFirst_append h, piece, List.append_nil]

/-- The lines of a text. -/
def lines (t : Text) : List Text := split '\n' t

end LineTree.Text
