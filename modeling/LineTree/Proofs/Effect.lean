import LineTree.Lexical

/-!
# What the lexical rules can say

For each effect, the kinds and characters that have it. Main statements: `Kind.effect_become`,
`Kind.effect_nest`, `Kind.effect_endWithGap`.
-/
namespace LineTree.Kind

variable {k k' : Kind} {c : Char}

theorem effect_become (h : k.effect c = .become k') :
    (k = number ∧ c = ',' ∧ k' = position) ∨ (k = comment ∧ c = '/' ∧ k' = docComment) ∨
      (k = slash ∧ c = '/' ∧ k' = comment) ∨ (k = methodCall ∧ c = ':' ∧ k' = labelMark) := by
  cases k <;> grind [effect, Effect.extendIf]

theorem effect_nest (h : k.effect c = .nest k') :
    (∃ q, k = quoted q ∧ c = '\\' ∧ k' = escape) ∨
      (k = comment ∧ c ≠ '/' ∧ k' = commentContent) ∨ (k = docComment ∧ k' = commentContent) := by
  cases k <;> grind [effect, Effect.extendIf]

theorem effect_endAfter (h : k.effect c = .endAfter) : k = escape := by
  cases k <;> grind [effect, Effect.extendIf]

theorem effect_endWithGap (h : k.effect c = .endWithGap) :
    (k = number ∧ isUnitSuffix c) ∨ ∃ q, k = quoted q ∧ c = q.mark := by
  cases k <;> grind [effect, Effect.extendIf]

theorem effect_number_endBefore (h : number.effect c = .endBefore) :
    isUnitSuffix c = false ∧ c ≠ ',' ∧ isNumberChar c = false := by
  grind [effect, Effect.extendIf]

theorem effect_slash_endBefore (h : slash.effect c = .endBefore) : c ≠ '/' := by
  grind [effect]

theorem effect_methodCall_endBefore (h : methodCall.effect c = .endBefore) : c ≠ ':' := by
  grind [effect]

/-- A token that ends in front of a character is no literal, no comment and no part of one. -/
theorem effect_endBefore (h : k.effect c = .endBefore) :
    (∀ q, k ≠ quoted q) ∧ k ≠ escape ∧ k ≠ comment ∧ k ≠ docComment ∧ k ≠ commentContent := by
  cases k <;> grind [effect, Effect.extendIf]

/-- A character that belongs to a token of several characters. -/
theorem effect_extend (h : k.effect c = .extend) :
    (k = indent ∧ c = '\t') ∨ (k = whitespace ∧ isBlank c) ∨
      ((k = identifier ∨ k = label) ∧ isNameChar c) ∨ (k = command ∧ c.isAlpha) ∨
      ((k = number ∨ k = position) ∧ isNumberChar c) ∨
      (∃ q, k = quoted q ∧ c ≠ '\\' ∧ c ≠ q.mark) ∨ k = commentContent := by
  cases k <;> grind [effect, Effect.extendIf]

end LineTree.Kind
