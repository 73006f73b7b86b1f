import Mathlib.Data.List.Induction
import Mathlib.Tactic.ByContra
import LineTree.Proofs.Monitor

/-!
# Where a comment opens

Quotes alone tell which characters of a line stand in literals: a literal goes from its quote to the
next quote of its kind that no backslash takes in. Two slashes open a comment if the first stands
in no literal. A scan knows nothing of quotes behind the first such pair, but up to there its mode
says the same. Main statements: `modeBehind_eq_comment_iff`, `exists_opensComment_iff`,
`FirstComment.of_code`.
-/
namespace LineTree

variable {text before after rest : Text} {c : Char} {m : Mode}

/-- Where the next character stands, as far as the quotes in front of it tell. -/
inductive Quoting where
  | outside
  | inside (quote : Quote)
  /-- Inside a literal, behind a backslash. -/
  | escaped (quote : Quote)
  deriving DecidableEq, Repr

def Quoting.next : Quoting → Char → Quoting
  | outside, c => if c = '"' then inside .double else if c = '\'' then inside .single else outside
  | inside q, c => if c = '\\' then escaped q else if c = q.mark then outside else inside q
  | escaped q, _ => inside q

/-- Two slashes stand behind `before`, and the first of them in no literal. -/
structure OpensComment (text before after : Text) : Prop where
  place : text = before ++ '/' :: '/' :: after
  outside : before.foldl Quoting.next .outside = .outside

/-- The leftmost such slashes. -/
structure FirstComment (text before after : Text) : Prop
    extends OpensComment text before after where
  first : ∀ before' after', OpensComment text before' after' → before.length ≤ before'.length

/-- The mode of a scan that has read the text. -/
def modeBehind (text : Text) : Mode := text.foldl Mode.next .code

namespace Mode

/-- What a mode tells about literals. -/
def quoting : Mode → Quoting
  | code | slash | comment => .outside
  | literal q => .inside q
  | escaped q => .escaped q

theorem next_eq_slash_iff : m.next c = slash ↔ m = code ∧ c = '/' := by
  cases m <;> grind [next, behind]

theorem next_eq_comment_iff : m.next c = comment ↔ m = comment ∨ m = slash ∧ c = '/' := by
  cases m <;> grind [next, behind]

/-- Outside of comments a mode keeps track of the quotes. -/
theorem quoting_next (uncommented : m.next c ≠ comment) :
    (m.next c).quoting = m.quoting.next c := by
  cases m <;> grind [next, behind, quoting, Quoting.next, Quote.mark]

end Mode

theorem modeBehind_append (front rest : Text) :
    modeBehind (front ++ rest) = rest.foldl Mode.next (modeBehind front) := List.foldl_append

theorem modeBehind_concat (front : Text) (c : Char) :
    modeBehind (front ++ [c]) = (modeBehind front).next c := modeBehind_append front [c]

/-- A comment goes on to the end of the line. -/
theorem modeBehind_of_comment (comment : modeBehind text = .comment) (rest : Text) :
    modeBehind (text ++ rest) = .comment := by
  rw [modeBehind_append, comment]
  induction rest with
  | nil => rfl
  | cons c rest ih => exact ih

theorem exists_of_slash (slash : modeBehind text = .slash) :
    ∃ front, text = front ++ ['/'] ∧ modeBehind front = .code := by
  rcases List.eq_nil_or_concat text with rfl | ⟨front, c, rfl⟩
  · cases slash
  · rw [List.concat_eq_append] at slash ⊢
    rw [modeBehind_concat, Mode.next_eq_slash_iff] at slash
    obtain ⟨code, rfl⟩ := slash
    exact ⟨front, rfl, code⟩

/-- A scan is in a comment behind two slashes of which the first was read in code. -/
theorem modeBehind_eq_comment_iff : modeBehind text = .comment ↔
    ∃ before after, text = before ++ '/' :: '/' :: after ∧ modeBehind before = .code := by
  constructor
  · intro comment
    induction text using List.reverseRecOn with
    | nil => cases comment
    | append_singleton front c ih =>
      rw [modeBehind_concat, Mode.next_eq_comment_iff] at comment
      rcases comment with inner | ⟨slash, rfl⟩
      · obtain ⟨before, after, rfl, code⟩ := ih inner
        exact ⟨before, after ++ [c], by simp, code⟩
      · obtain ⟨before, rfl, code⟩ := exists_of_slash slash
        exact ⟨before, [], by simp, code⟩
  · rintro ⟨before, after, rfl, code⟩
    have opened : modeBehind (before ++ ['/', '/']) = .comment := by
      rw [modeBehind_append, code]
      rfl
    simpa using modeBehind_of_comment opened after

theorem quoting_modeBehind (uncommented : modeBehind text ≠ .comment) :
    text.foldl Quoting.next .outside = (modeBehind text).quoting := by
  induction text using List.reverseRecOn with
  | nil => rfl
  | append_singleton front c ih =>
    have earlier : modeBehind front ≠ .comment := fun comment =>
      uncommented (modeBehind_of_comment comment [c])
    rw [modeBehind_concat] at uncommented ⊢
    rw [List.foldl_append, ih earlier, Mode.quoting_next uncommented]
    rfl

/-- Behind two slashes of which the first stands in no literal there is a comment, opened by them or
earlier. -/
theorem OpensComment.modeBehind_eq (h : OpensComment text before after) :
    modeBehind text = .comment := by
  obtain ⟨rfl, outside⟩ := h
  by_cases comment : modeBehind before = .comment
  · exact modeBehind_of_comment comment _
  · have opened : modeBehind (before ++ ['/', '/']) = .comment := by
      rw [quoting_modeBehind comment] at outside
      rw [modeBehind_append]
      cases mode : modeBehind before with
      | code | slash => rfl
      | comment => exact (comment mode).elim
      | literal q | escaped q =>
        rw [mode] at outside
        cases outside
    simpa using modeBehind_of_comment opened after

/-- Slashes that a scan reads in code are the leftmost ones outside of literals. -/
theorem FirstComment.of_code (place : text = before ++ '/' :: '/' :: after)
    (code : modeBehind before = .code) : FirstComment text before after where
  place := place
  outside := by
    rw [quoting_modeBehind (by simp [code]), code]
    rfl
  first := by
    intro before' after' opens
    by_contra shorter
    -- otherwise the earlier slashes stand in front of the second one of these
    have earlier : before' ++ ['/', '/'] <+: text := ⟨after', by simp [opens.place]⟩
    have front : before ++ ['/'] <+: text := ⟨'/' :: after, by simp [place]⟩
    have shorter : (before' ++ ['/', '/']).length ≤ (before ++ ['/']).length := by
      simp
      omega
    obtain ⟨between, same⟩ := List.prefix_of_prefix_length_le earlier front shorter
    have opens' : OpensComment (before ++ ['/']) before' between :=
      ⟨by simp [← same], opens.outside⟩
    have comment := opens'.modeBehind_eq
    rw [modeBehind_concat, code] at comment
    cases comment

/-- A scan ends in a comment if two slashes stand outside of literals. -/
theorem exists_opensComment_iff :
    (∃ before after, OpensComment text before after) ↔ modeBehind text = .comment := by
  constructor
  · rintro ⟨before, after, opens⟩
    exact opens.modeBehind_eq
  · intro comment
    obtain ⟨before, after, place, code⟩ := modeBehind_eq_comment_iff.1 comment
    exact ⟨before, after, (FirstComment.of_code place code).toOpensComment⟩

end LineTree
