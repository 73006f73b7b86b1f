import LineTree.Proofs.Reports

/-!
# A monitor for brackets

The reports of a scan can be found without any token. A monitor knows whether the next character
stands in code, in a quoted literal or in a comment, and which brackets are open; every step of a
scan is a step of its monitor. Main statements: `Scan.monitor_step`,
`ScannedLine.diagnostics_eq_monitor`.
-/
namespace LineTree

variable {line offset : Nat} {text rest : Text} {c : Char}

/-- What the characters read so far make of the next one. -/
inductive Mode where
  | code
  /-- Code behind a slash. -/
  | slash
  | literal (quote : Quote)
  /-- A literal behind a backslash. -/
  | escaped (quote : Quote)
  | comment
  deriving DecidableEq, Repr

namespace Mode

def isCode : Mode → Bool
  | code | slash => true
  | _ => false

/-- The mode behind a character of code, a slash apart. -/
def behind (slashed : Mode) (c : Char) : Mode :=
  if c = '/' then slashed
  else if c = Quote.double.mark then literal .double
  else if c = Quote.single.mark then literal .single
  else code

def next : Mode → Char → Mode
  | code, c => behind slash c
  | slash, c => behind comment c
  | literal q, c => if c = '\\' then escaped q else if c = q.mark then code else literal q
  | escaped q, _ => literal q
  | comment, _ => comment

end Mode

/-- A reader of a line that keeps no tokens. -/
structure Monitor where
  line : Nat
  /-- Number of bytes read. -/
  offset : Nat := 0
  mode : Mode := .code
  /-- The open brackets with the places of their openers, the innermost first. -/
  groups : List (Bracket × Nat) := []
  /-- The reports so far, in order. -/
  reports : List Diagnostic := []

namespace Monitor

/-- A closing bracket closes the innermost open one, if that has its shape. -/
def close (m : Monitor) (b : Bracket) : Monitor :=
  match m.groups with
  | [] => { m with reports := m.reports ++ [.mismatched m.line m.offset b none] }
  | (innermost, _) :: outer =>
    if innermost = b then { m with groups := outer }
    else { m with reports := m.reports ++ [.mismatched m.line m.offset b (some innermost)] }

/-- What a character of code does to the open brackets. -/
def pair (m : Monitor) (c : Char) : Monitor :=
  match Bracket.ofOpener? c with
  | some b => { m with groups := (b, m.offset) :: m.groups }
  | none =>
    match Bracket.ofCloser? c with
    | some b => m.close b
    | none => m

/-- Reads one character. Brackets count in code only. -/
def step (m : Monitor) (c : Char) : Monitor :=
  let paired := if m.mode.isCode then m.pair c else m
  { paired with offset := m.offset + c.utf8Size, mode := m.mode.next c }

/-- What a monitor finds in a line. -/
def diagnostics (line : Nat) (text : Text) (report : Bool) : List Diagnostic :=
  let m := text.foldl step { line }
  m.reports ++
    if report then m.groups.reverse.map fun (b, start) => .unclosed line start b else []

end Monitor

namespace Mode

/-- The mode of a scan with open tokens of these kinds, given from the inside out. -/
def ofKinds : List Kind → Mode
  | .slash :: _ => slash
  | .quoted q :: _ => literal q
  | .escape :: .quoted q :: _ => escaped q
  | .comment :: _ | .docComment :: _ | .commentContent :: _ => comment
  | _ => code

/-- The characters that change the mode or the brackets of a monitor in code. -/
def watched : List Char := ['/', '"', '\'', '[', '(', '{', ']', ')', '}']

theorem behind_of_not_watched {slashed : Mode} (h : c ∉ watched) : behind slashed c = code := by
  simp only [watched, List.mem_cons, not_or] at h
  simp [behind, Quote.mark, h]

/-- What takes in a character outside literals and comments is code, and no watched character. -/
theorem plain_of_extend {k : Kind} (effect : k.effect c = .extend) (kinds : List Kind) :
    (ofKinds (k :: kinds) = code ∧ c ∉ watched) ∨
      (∃ q, k = .quoted q ∧ c ≠ '\\' ∧ c ≠ q.mark) ∨ k = .commentContent := by
  have unwatched : ∀ p : Char → Bool, watched.any p = false → p c → c ∉ watched := by
    intro p misses holds member
    exact absurd holds (List.any_eq_false.1 misses c member)
  rcases Kind.effect_extend effect with ⟨rfl, rfl⟩ | ⟨rfl, blank⟩ | ⟨rfl | rfl, name⟩ |
    ⟨rfl, letter⟩ | ⟨rfl | rfl, digit⟩ | literal | content
  · exact Or.inl ⟨rfl, by decide⟩
  · exact Or.inl ⟨rfl, unwatched isBlank rfl blank⟩
  · exact Or.inl ⟨rfl, unwatched isNameChar rfl name⟩
  · exact Or.inl ⟨rfl, unwatched isNameChar rfl name⟩
  · exact Or.inl ⟨rfl, unwatched Char.isAlpha rfl letter⟩
  · exact Or.inl ⟨rfl, unwatched isNumberChar rfl digit⟩
  · exact Or.inl ⟨rfl, unwatched isNumberChar rfl digit⟩
  · exact Or.inr (Or.inl literal)
  · exact Or.inr (Or.inr content)

theorem not_watched_of_isUnitSuffix (h : isUnitSuffix c) : c ∉ watched := by
  simp only [isUnitSuffix, Bool.or_eq_true, beq_iff_eq] at h
  rcases h with ((rfl | rfl) | rfl) | rfl <;> decide

/-- A token that begins in code sets the mode that its first character asks for. -/
theorem ofKinds_begunBy (previous : Kind) (c : Char) (kinds : List Kind) :
    ofKinds (previous.begunBy c :: kinds) = behind slash c := by
  by_cases member : c ∈ watched
  · simp only [watched, List.mem_cons, List.not_mem_nil, or_false] at member
    rcases member with rfl | rfl | rfl | rfl | rfl | rfl | rfl | rfl | rfl <;> rfl
  · rw [behind_of_not_watched member]
    unfold Kind.begunBy
    split
    · rfl
    · split
      · rfl
      · split
        · split <;> rfl
        · split
          · rfl
          · split
            · rfl
            · split <;> first | rfl | exact absurd (by decide) member

/-- A token that ends in front of a character stands in code. It may be a slash, but not in front
of another one. -/
theorem code_of_endBefore {k : Kind} (effect : k.effect c = .endBefore) (kinds : List Kind) :
    (ofKinds (k :: kinds)).isCode ∧ (ofKinds (k :: kinds)).next c = behind slash c := by
  obtain ⟨literal, escape, comment, doc, content⟩ := Kind.effect_endBefore effect
  cases k with
  | quoted q => exact (literal q rfl).elim
  | escape => exact (escape rfl).elim
  | comment => exact (comment rfl).elim
  | docComment => exact (doc rfl).elim
  | commentContent => exact (content rfl).elim
  | slash =>
    have other := Kind.effect_slash_endBefore effect
    exact ⟨rfl, by simp [ofKinds, next, behind, other]⟩
  | _ => exact ⟨rfl, rfl⟩

end Mode

namespace Monitor

theorem pair_eq_self {m : Monitor} (opener : Bracket.ofOpener? c = none)
    (closer : Bracket.ofCloser? c = none) : m.pair c = m := by
  simp [pair, opener, closer]

theorem pair_of_not_watched {m : Monitor} (h : c ∉ Mode.watched) : m.pair c = m := by
  refine pair_eq_self ?_ ?_
  · cases found : Bracket.ofOpener? c with
    | none => rfl
    | some b =>
      obtain rfl := Bracket.ofOpener?_eq_some_iff.1 found
      cases b <;> exact absurd (by decide) h
  · cases found : Bracket.ofCloser? c with
    | none => rfl
    | some b =>
      obtain rfl := Bracket.ofCloser?_eq_some_iff.1 found
      cases b <;> exact absurd (by decide) h

/-- The brackets stay as they are, unless the character ends the token in front of it. -/
theorem inert {k : Kind} {kinds : List Kind} (m : Monitor) (effect : k.effect c ≠ .endBefore)
    (literal : k = .escape → ∃ q outer, kinds = .quoted q :: outer) :
    (if (Mode.ofKinds (k :: kinds)).isCode then m.pair c else m) = m := by
  cases same : k.effect c with
  | endBefore => exact (effect same).elim
  | extend =>
    rcases Mode.plain_of_extend same kinds with ⟨-, plain⟩ | ⟨q, rfl, -⟩ | rfl
    · rw [pair_of_not_watched plain, ite_self]
    · rfl
    · rfl
  | become k' =>
    have plain : m.pair c = m := by
      rcases Kind.effect_become same with ⟨-, rfl, -⟩ | ⟨-, rfl, -⟩ | ⟨-, rfl, -⟩ | ⟨-, rfl, -⟩
      all_goals exact pair_eq_self rfl rfl
    rw [plain, ite_self]
  | nest k' => rcases Kind.effect_nest same with ⟨q, rfl, -⟩ | ⟨rfl, -⟩ | ⟨rfl, -⟩ <;> rfl
  | endAfter =>
    obtain rfl := Kind.effect_endAfter same
    obtain ⟨q, outer, rfl⟩ := literal rfl
    rfl
  | endWithGap =>
    rcases Kind.effect_endWithGap same with ⟨-, suffix⟩ | ⟨q, rfl, -⟩
    · rw [pair_of_not_watched (Mode.not_watched_of_isUnitSuffix suffix), ite_self]
    · rfl

theorem pair_closer (m : Monitor) (b : Bracket) : m.pair b.closer = m.close b := by
  cases b <;> rfl

theorem pair_opener (m : Monitor) (b : Bracket) :
    m.pair b.opener = { m with groups := (b, m.offset) :: m.groups } := by
  cases b <;> rfl

theorem close_innermost {m : Monitor} {b : Bracket} {start : Nat} {outer : List (Bracket × Nat)}
    (h : m.groups = (b, start) :: outer) : m.close b = { m with groups := outer } := by
  simp [close, h]

theorem close_mismatched {m : Monitor} {b : Bracket} {innermost : Option Bracket}
    (h : m.groups.head?.map Prod.fst = innermost) (other : innermost ≠ some b) :
    m.close b =
      { m with reports := m.reports ++ [.mismatched m.line m.offset b innermost] } := by
  subst h
  cases groups : m.groups with
  | nil => simp [close, groups]
  | cons group outer =>
    have different : group.1 ≠ b := by simpa [groups] using other
    simp [close, groups, different]

end Monitor

/-- The open groups with the places of their openers, from the inside out. -/
def openGroups (stack : List OpenToken) : List (Bracket × Nat) :=
  stack.filterMap fun o => o.kind.bracket?.map (·, o.start)

theorem openGroups_hollow {o : OpenToken} (h : o.kind.bracket? = none) (below : List OpenToken) :
    openGroups (o :: below) = openGroups below := by
  simp [openGroups, h]

theorem openGroups_group {o : OpenToken} {b : Bracket} (h : o.kind = .brackets b)
    (below : List OpenToken) : openGroups (o :: below) = (b, o.start) :: openGroups below := by
  simp [openGroups, h, Kind.bracket?]

/-- The innermost token names the innermost open group, if it is a group or the line. -/
theorem Sound.innermost {o : OpenToken} {below : List OpenToken}
    (h : Sound line text rest (o :: below)) (filled : o.kind.isFilled) :
    (openGroups (o :: below)).head?.map Prod.fst = o.kind.bracket? := by
  cases kind : o.kind with
  | line =>
    obtain rfl := h.bottom.1 kind
    simp [openGroups, kind, Kind.bracket?]
  | brackets b => simp [openGroups_group kind, Kind.bracket?]
  | _ =>
    rw [kind] at filled
    cases filled

/-- The mode of a scan with these open tokens, given from the inside out. -/
def Mode.ofStack (stack : List OpenToken) : Mode := .ofKinds (stack.map (·.kind))

open OpenToken

/-- The moves change the mode as a monitor does. -/
theorem Move.mode {stack next : List OpenToken} {events : List ScanEvent}
    (move : Move line offset c stack next events) (sound : Sound line text rest stack) :
    Mode.ofStack next = (Mode.ofStack stack).next c := by
  cases move with
  | @extend o below effect =>
    have same : Mode.ofStack (o.push c :: below) = Mode.ofStack (o :: below) := rfl
    rw [same]
    rcases Mode.plain_of_extend effect (below.map (·.kind)) with ⟨code, plain⟩ |
      ⟨q, kind, escape, mark⟩ | kind
    · rw [Mode.ofStack, List.map_cons, code, Mode.next, Mode.behind_of_not_watched plain]
    · simp [Mode.ofStack, kind, Mode.ofKinds, Mode.next, escape, mark]
    · simp [Mode.ofStack, kind, Mode.ofKinds, Mode.next]
  | @become o below k effect =>
    unfold Mode.ofStack
    rcases Kind.effect_become effect with ⟨kind, rfl, rfl⟩ | ⟨kind, rfl, rfl⟩ | ⟨kind, rfl, rfl⟩ |
      ⟨kind, rfl, rfl⟩ <;> rw [List.map_cons, List.map_cons, kind] <;> rfl
  | @nest o below k effect =>
    rcases Kind.effect_nest effect with ⟨q, kind, rfl, rfl⟩ | ⟨kind, -, rfl⟩ | ⟨kind, rfl⟩
    all_goals simp [Mode.ofStack, kind, begun, Mode.ofKinds, Mode.next]
  | @endAfter o parent below effect =>
    have kind := Kind.effect_endAfter effect
    obtain ⟨q, literal⟩ := sound.within.quoted_of_escape kind
    simp [Mode.ofStack, kind, literal, OpenToken.absorb, Mode.ofKinds, Mode.next]
  | @endWithGap o parent below effect =>
    rcases Kind.effect_endWithGap effect with ⟨kind, suffix⟩ | ⟨q, kind, rfl⟩
    · have plain := Mode.not_watched_of_isUnitSuffix suffix
      simp [Mode.ofStack, kind, gap, Mode.ofKinds, Mode.next, Mode.behind_of_not_watched plain]
    · have other : q.mark ≠ '\\' := by cases q <;> decide
      simp [Mode.ofStack, kind, gap, Mode.ofKinds, Mode.next, other]
  | @closeGroup o group outer below b effect kind closer =>
    have behind := (Mode.code_of_endBefore effect ((group :: outer :: below).map (·.kind))).2
    exact (behind.trans (by rw [closer]; cases b <;> rfl)).symm
  | @mismatch o parent below b effect closer other =>
    have behind := (Mode.code_of_endBefore effect ((parent :: below).map (·.kind))).2
    exact (behind.trans (by rw [closer]; cases b <;> rfl)).symm
  | @openGroup o parent below b effect opener =>
    have behind := (Mode.code_of_endBefore effect ((parent :: below).map (·.kind))).2
    exact (behind.trans (by rw [opener]; cases b <;> rfl)).symm
  | @begin o parent below effect closer opener =>
    have behind := (Mode.code_of_endBefore effect ((parent :: below).map (·.kind))).2
    exact (Mode.ofKinds_begunBy o.kind c _).trans behind.symm

/-- The moves change the open groups, and report, as a monitor does. -/
theorem Move.pairing {stack next : List OpenToken} {events : List ScanEvent}
    (move : Move line offset c stack next events) (sound : Sound line text rest stack)
    (settled : ∀ o ∈ stack.head?, o.kind.isFilled = false) {m : Monitor} (number : m.line = line)
    (here : m.offset = offset) (groups : m.groups = openGroups stack) :
    (if (Mode.ofStack stack).isCode then m.pair c else m) =
      { m with
        groups := openGroups next
        reports := m.reports ++ events.filterMap ScanEvent.report? } := by
  subst number here
  have unchanged : openGroups next = openGroups stack → events.filterMap ScanEvent.report? = [] →
      m = { m with
        groups := openGroups next
        reports := m.reports ++ events.filterMap ScanEvent.report? } := by
    intro same silent
    rw [same, silent, List.append_nil, ← groups]
  have hollow : ∀ o below, stack = o :: below → o.kind.bracket? = none := by
    rintro o below rfl
    exact Kind.bracket?_of_not_isFilled (settled o rfl)
  have silent : ∀ o below, stack = o :: below → o.kind.effect c ≠ .endBefore →
      (if (Mode.ofStack stack).isCode then m.pair c else m) = m := by
    rintro o below rfl effect
    refine m.inert effect fun escape => ?_
    cases sound with
    | line kind _ _ => cases escape.symm.trans kind
    | @inside _ parent below within _ _ =>
      obtain ⟨q, literal⟩ := within.quoted_of_escape escape
      exact ⟨q, below.map (·.kind), by rw [List.map_cons, literal]⟩
  have coded : ∀ o below, stack = o :: below → o.kind.effect c = .endBefore →
      (if (Mode.ofStack stack).isCode then m.pair c else m) = m.pair c := by
    rintro o below rfl effect
    exact if_pos (Mode.code_of_endBefore effect (below.map (·.kind))).1
  cases move with
  | @extend o below effect =>
    exact (silent o _ rfl (by simp [effect])).trans (unchanged rfl rfl)
  | @become o below k effect =>
    have plain : k.bracket? = none := by
      rcases Kind.effect_become effect with ⟨-, -, rfl⟩ | ⟨-, -, rfl⟩ | ⟨-, -, rfl⟩ |
        ⟨-, -, rfl⟩ <;> rfl
    refine (silent o _ rfl (by simp [effect])).trans (unchanged ?_ rfl)
    rw [openGroups_hollow (hollow o below rfl), openGroups_hollow plain]
  | @nest o below k effect =>
    have plain : k.bracket? = none := by
      rcases Kind.effect_nest effect with ⟨q, -, -, rfl⟩ | ⟨-, -, rfl⟩ | ⟨-, rfl⟩ <;> rfl
    exact (silent o _ rfl (by simp [effect])).trans (unchanged (openGroups_hollow plain _) rfl)
  | @endAfter o parent below effect =>
    refine (silent o _ rfl (by simp [effect])).trans (unchanged ?_ rfl)
    exact (openGroups_hollow (hollow o _ rfl) _).symm
  | @endWithGap o parent below effect =>
    refine (silent o _ rfl (by simp [effect])).trans (unchanged ?_ rfl)
    exact (openGroups_hollow (hollow o _ rfl) _).symm
  | @closeGroup o group outer below b effect kind closer =>
    rw [coded o _ rfl effect]
    have open_groups : m.groups = (b, group.start) :: openGroups (outer :: below) := by
      rw [groups, openGroups_hollow (hollow o _ rfl), openGroups_group kind]
    rw [closer, Monitor.pair_closer, Monitor.close_innermost open_groups]
    exact congrArg (fun found => { m with groups := openGroups (outer :: below), reports := found })
      (List.append_nil m.reports).symm
  | @mismatch o parent below b effect closer other =>
    have filled := sound.within.filled_of_endBefore effect
    have innermost : m.groups.head?.map Prod.fst = parent.kind.bracket? := by
      rw [groups, openGroups_hollow (hollow o _ rfl), sound.around.innermost filled]
    have different : parent.kind.bracket? ≠ some b := fun same =>
      other (Kind.bracket?_eq_some_iff.1 same)
    have same : openGroups (begun .unresolved m.offset c :: parent.absorb o m.line :: below) =
        m.groups := by
      rw [groups, openGroups_hollow rfl, openGroups_hollow (hollow o _ rfl)]
      rfl
    rw [coded o _ rfl effect, same, closer, Monitor.pair_closer,
      Monitor.close_mismatched innermost different, ← Problem.mismatched_diagnostic]
    rfl
  | @openGroup o parent below b effect opener =>
    have open_groups : m.groups = openGroups (parent :: below) := by
      rw [groups, openGroups_hollow (hollow o _ rfl)]
    rw [coded o _ rfl effect, opener, Monitor.pair_opener, open_groups]
    exact congrArg (fun found => { m with
      groups := (b, m.offset) :: openGroups (parent :: below), reports := found })
      (List.append_nil m.reports).symm
  | @begin o parent below effect closer opener =>
    rw [coded o _ rfl effect, Monitor.pair_eq_self opener closer]
    have single : (o.kind.begunBy c).bracket? = none := by
      have group : (o.kind.begunBy c).isBracket = false := Scan.begunBy_isBracket opener
      simpa [Kind.isBracket] using group
    refine unchanged ?_ rfl
    exact (openGroups_hollow single _).trans (openGroups_hollow (hollow o _ rfl) _).symm

namespace Scan

/-- The monitor that knows of the scan what a monitor can know. -/
def monitor (s : Scan) : Monitor where
  line := s.line
  offset := s.offset
  mode := .ofStack s.openTokens
  groups := openGroups s.openTokens
  reports := s.reports

/-- A step of the scan is a step of its monitor. -/
theorem monitor_step {s : Scan} (h : Invariant line text (c :: rest) s) :
    (s.step c).monitor = s.monitor.step c := by
  obtain ⟨events, move, known⟩ := h.move
  have paired := move.pairing h.sound h.settled_head (m := s.monitor) h.line_eq rfl rfl
  have mode : Mode.ofStack s.openTokens = s.monitor.mode := rfl
  rw [mode] at paired
  rw [Monitor.step, paired, ← mode, ← move.mode h.sound]
  simp only [monitor, line_step, offset_step, reports_step known]

theorem monitor_run {s : Scan} {read : Text} (h : Invariant line text (read ++ rest) s) :
    (s.run read).monitor = read.foldl Monitor.step s.monitor := by
  induction read generalizing s with
  | nil => rfl
  | cons c read ih => rw [run_cons, ih (invariant_step h), monitor_step h, List.foldl_cons]

/-- The reports about open groups are those of the monitor. -/
theorem unclosed_eq_monitor (s : Scan) :
    s.unclosed = s.monitor.groups.reverse.map fun (b, start) => .unclosed s.line start b := by
  rw [unclosed_eq, monitor, openGroups, ← List.filterMap_reverse, List.map_filterMap]
  congr 1
  funext o
  rw [Option.map_map]
  rfl

end Scan

/-- A line is reported on as its monitor does. -/
theorem ScannedLine.diagnostics_eq_monitor (line : Nat) (text : Text) (report : Bool) :
    (ofText line text report).diagnostics = Monitor.diagnostics line text report := by
  have invariant : Scan.Invariant line text (text ++ []) (Scan.start line) := by
    simpa using Scan.invariant_start line text
  have run := Scan.monitor_run invariant
  have number := (Scan.invariant_end line text).line_eq
  have start : (Scan.start line).monitor = { line } := rfl
  rw [start] at run
  rw [diagnostics_eq, Monitor.diagnostics, ← run, Scan.unclosed_eq_monitor, number]
  rfl

/-- A bracket in a literal does not count, and one that does not fit leaves the group open. -/
example : Monitor.diagnostics 0 ['(', '"', ')', '"', ']'] true =
    [.mismatched 0 4 .square (some .round), .unclosed 0 0 .round] := rfl

end LineTree
