import LineTree.Proofs.Growth

/-!
# How open tokens end

A token ends in front of a character that it does not take in, at its own last character, or at
the end of the line. It then has the form of its kind and cannot be made longer. Main statements:
`OpenToken.Grows.conforms_endBefore`, `OpenToken.Grows.conforms_endWithGap`,
`OpenToken.Grows.conforms_atEnd`.
-/
namespace LineTree

namespace Kind

theorem frame?_cases {k : Kind} {f : Frame} (framed : k.frame? = some f) :
    k.isFilled ∨ (∃ q, k = quoted q) ∨ k = comment ∨ k = docComment := by
  cases k <;> simp_all [frame?, isFilled]

theorem endsLine_cases {k : Kind} {t : Text} (h : k.EndsLine t) :
    (k = escape ∧ t = ['\\']) ∨ k = commentContent := by
  cases k <;> simp_all [EndsLine]

theorem not_endsLine_of_framed {k : Kind} {f : Frame} {t : Text} (framed : k.frame? = some f) :
    ¬ k.EndsLine t := by
  cases k <;> simp_all [EndsLine, frame?]

theorem frameless_of_endBefore {k : Kind} {c : Char} (effect : k.effect c = .endBefore)
    (hollow : k.isFilled = false) : k.frame? = none := by
  obtain ⟨quoted, -, comment, docComment, -⟩ := effect_endBefore effect
  cases frame : k.frame? with
  | none => rfl
  | some f =>
    rcases frame?_cases frame with filled | ⟨q, same⟩ | same | same
    · simp [hollow] at filled
    · exact (quoted q same).elim
    · exact (comment same).elim
    · exact (docComment same).elim

end Kind

namespace OpenToken

variable {o : OpenToken} {line : Nat} {text before rest : Text} {c : Char}

/-- A token in front of a character that it does not take in. -/
theorem Grows.conforms_endBefore (h : o.Grows (c :: rest)) (effect : o.kind.effect c = .endBefore)
    (hollow : o.kind.isFilled = false) (place : text = before ++ o.read.reverse ++ c :: rest)
    (start : Text.byteLength before = o.start) : (o.toToken line).Conforms line text := by
  have frameless := Kind.frameless_of_endBefore effect hollow
  have unitless : o.kind = .number → ∀ x ∈ o.read.reverse, isNumberChar x := fun kind => by
    have pending := h.pending
    rwa [kind] at pending
  refine ⟨rfl, rfl, ⟨before, c :: rest, place, start, ?_⟩, ?_⟩
  · exact Kind.longest_of_endBefore (h.spelled frameless) effect unitless
  · refine ⟨h.admits, fun filled => ?_, fun f framed => ?_, fun _ => h.spelled frameless,
      fun endsLine => ?_⟩
    · exact absurd (hollow.symm.trans filled) (by simp)
    · exact absurd (frameless.symm.trans framed) (by simp)
    · obtain ⟨-, escape, -, -, content⟩ := Kind.effect_endBefore effect
      rcases Kind.endsLine_cases endsLine with ⟨same, -⟩ | same
      · exact (escape same).elim
      · exact (content same).elim

/-- The last character of a frame completes the form of the token. -/
theorem Grows.hasForm_last (h : o.Grows rest) {f : Frame} (framed : o.kind.frame? = some f)
    (last : f.last? = some c) (filled : o.kind.isFilled → o.done ≠ []) :
    ((o.push c).toToken line).HasForm text where
  admits := h.admits
  filled := fun group => by simpa [toToken, push] using filled group
  framed := fun g same => by
    obtain rfl : f = g := Option.some.inj (framed.symm.trans same)
    obtain ⟨body, read, laid⟩ := h.framed f framed
    refine ⟨body, laid, Or.inl ⟨c, last, ?_⟩⟩
    rw [toToken, push, List.reverse_cons, read]
  spelled := fun frameless => absurd (framed.symm.trans frameless) (by simp)
  endsLine := fun endsLine => (Kind.not_endsLine_of_framed framed endsLine).elim

theorem place_push {after : Text} (place : text = before ++ o.read.reverse ++ c :: after) :
    text = before ++ ((o.push c).toToken line).literal ++ after := by
  simp [place, toToken, push]

theorem Grows.conforms_group (h : o.Grows (c :: rest)) {b : Bracket} (kind : o.kind = .brackets b)
    (closer : c = b.closer) (nonempty : o.done ≠ [])
    (place : text = before ++ o.read.reverse ++ c :: rest)
    (start : Text.byteLength before = o.start) : ((o.push c).toToken line).Conforms line text := by
  refine ⟨rfl, rfl, ⟨before, rest, place_push place, start, ?_⟩, ?_⟩
  · have same : ((o.push c).toToken line).kind = .brackets b := kind
    rw [same]
    apply Kind.longest_of_refused
    · rintro k' ⟨⟩
      rfl
    · exact fun _ _ spelled => spelled
  · have framed := congrArg Kind.frame? kind
    exact h.hasForm_last framed (by rw [closer]) fun _ => nonempty

theorem Grows.conforms_escape (h : o.Grows (c :: rest)) (kind : o.kind = .escape)
    (place : text = before ++ o.read.reverse ++ c :: rest)
    (start : Text.byteLength before = o.start) : ((o.push c).toToken line).Conforms line text := by
  obtain ⟨k, first, read, done⟩ := o
  obtain rfl : k = .escape := kind
  have backslash : read.reverse = ['\\'] := h.pending
  have literal : (({ kind := .escape, start := first, read, done } : OpenToken).push c
      |>.toToken line).literal = ['\\', c] := by
    simp [toToken, push, backslash]
  refine ⟨rfl, rfl, ⟨before, rest, place_push place, start, ?_⟩, ?_⟩
  · rw [literal]
    exact Kind.longest_escape
  · refine ⟨h.admits, fun filled => absurd filled (by simp [toToken, push, Kind.isFilled]),
      fun f framed => absurd framed (by simp [toToken, push, Kind.frame?]), fun _ => ?_,
      fun alone => ?_⟩
    · rw [literal]
      exact Or.inr ⟨c, rfl⟩
    · rw [literal] at alone
      exact absurd alone (by simp [toToken, push, Kind.EndsLine])

/-- The escapes of a literal that goes on behind them are whole. -/
theorem Grows.whole_escapes {q : Quote} (h : o.Grows (c :: rest)) (kind : o.kind = .quoted q)
    (inside : ∀ d ∈ o.done, d.HasForm text) (place : text = before ++ o.read.reverse ++ c :: rest)
    (start : Text.byteLength before = o.start) : ∀ d ∈ o.done, ∃ x, d.literal = ['\\', x] := by
  intro d member
  have behind : d ∈ o.done.reverse := List.mem_reverse.2 member
  have escape : d.kind = .escape := by
    obtain ⟨earlier, admits⟩ := h.admits.mem behind
    rwa [kind] at admits
  have spelled := (inside d member).spelled (by rw [escape]; rfl)
  rw [escape] at spelled
  rcases spelled with alone | whole
  · have stop := (inside d member).endsLine (by rw [escape]; exact alone)
    obtain ⟨body, read, laid⟩ := h.framed _ (congrArg Kind.frame? kind)
    have bound := (laid.bounds behind).2
    have size := c.utf8Size_pos
    rw [stop, place, ← start] at bound
    simp only [Text.byteLength_append, Text.byteLength_cons, read] at bound
    omega
  · exact whole

theorem Grows.conforms_endWithGap (h : o.Grows (c :: rest)) (effect : o.kind.effect c = .endWithGap)
    (inside : ∀ d ∈ o.done, d.HasForm text) (place : text = before ++ o.read.reverse ++ c :: rest)
    (start : Text.byteLength before = o.start) : ((o.push c).toToken line).Conforms line text := by
  rcases Kind.effect_endWithGap effect with ⟨kind, suffix⟩ | ⟨q, kind, mark⟩
  · obtain ⟨k, first, read, done⟩ := o
    obtain rfl : k = .number := kind
    have literal : (({ kind := .number, start := first, read, done } : OpenToken).push c
        |>.toToken line).literal = read.reverse ++ [c] := by
      simp [toToken, push]
    refine ⟨rfl, rfl, ⟨before, rest, place_push place, start, ?_⟩, ?_⟩
    · rw [literal]
      exact Kind.longest_number_unit suffix
    · refine ⟨h.admits, fun filled => absurd filled (by simp [toToken, push, Kind.isFilled]),
        fun f framed => absurd framed (by simp [toToken, push, Kind.frame?]), fun _ => ?_,
        fun endsLine => endsLine.elim⟩
      obtain ⟨digit, digits, same, isDigit, chars⟩ := (h.spelled rfl).number_unitless h.pending
      rw [literal, same]
      exact ⟨digit, digits, [c], rfl, isDigit, chars, Or.inr ⟨c, suffix, rfl⟩⟩
  · have framed := congrArg Kind.frame? kind
    refine ⟨rfl, rfl, ⟨before, rest, place_push place, start, ?_⟩, ?_⟩
    · obtain ⟨body, read, laid⟩ := h.framed _ framed
      have whole := h.whole_escapes kind inside place start
      have same : ((o.push c).toToken line).kind = .quoted q := kind
      have literal : ((o.push c).toToken line).literal = q.mark :: body ++ [q.mark] := by
        rw [toToken, push, List.reverse_cons, read, mark]
        rfl
      rw [same, literal]
      exact Kind.longest_quoted laid fun t member => whole t (List.mem_reverse.1 member)
    · refine h.hasForm_last framed (by rw [mark]) fun filled => ?_
      exact absurd filled (by simp [kind, Kind.isFilled])

/-- The end of the line ends every token. -/
theorem Grows.conforms_atEnd (h : o.Grows []) (filled : o.kind.isFilled → o.done ≠ [])
    (place : text = before ++ o.read.reverse) (start : Text.byteLength before = o.start) :
    (o.toToken line).Conforms line text := by
  have stop : (o.toToken line).stop = Text.byteLength text := by
    rw [stop_toToken, place, Text.byteLength_append, Text.byteLength_reverse, start]
  refine ⟨rfl, rfl, ⟨before, [], by simpa [toToken] using place, start, Kind.longest_nil _ _⟩, ?_⟩
  refine ⟨h.admits, fun group => by simpa [toToken] using filled group, fun f framed => ?_,
    h.spelled, fun _ => stop⟩
  obtain ⟨body, read, laid⟩ := h.framed f framed
  exact ⟨body, laid, Or.inr ⟨read, stop⟩⟩

end OpenToken
end LineTree
