import LineTree.Proofs.Shown

/-!
# Dumps determine their trees

Every part of a line of a dump shows where it ends: the literal by its closing quote, the kind and
the numbers by the character behind them. The indentation shows where the tokens inside a token end:
no line behind them is as deep. So two lists of trees without values that have the same dump are the
same list. Main statements: `Text.quote_append_inj`, `Token.heading_append_inj`,
`Token.dumpAllAt_append_inj`, `Output.tokens_plain_faithful`.
-/
namespace LineTree

/-- Two splits of one text at a character that neither front holds are the same split. -/
theorem Text.append_cons_inj {a b x y : Text} {c : Char} (ha : c ∉ a) (hb : c ∉ b)
    (same : a ++ c :: x = b ++ c :: y) : a = b ∧ x = y := by
  induction a generalizing b with
  | nil =>
    cases b with
    | nil => exact ⟨rfl, (List.cons.inj same).2⟩
    | cons d b =>
      obtain rfl : c = d := (List.cons.inj same).1
      exact (hb List.mem_cons_self).elim
  | cons d a ih =>
    cases b with
    | nil =>
      obtain rfl : d = c := (List.cons.inj same).1
      exact (ha List.mem_cons_self).elim
    | cons e b =>
      obtain ⟨rfl, rest⟩ := List.cons.inj same
      obtain ⟨rfl, tail⟩ := ih (fun h => ha (List.mem_cons_of_mem _ h))
        (fun h => hb (List.mem_cons_of_mem _ h)) rest
      exact ⟨rfl, tail⟩

section Digits

variable {base m n : Nat}

theorem digitChar_of_mem_toDigits {c : Char} (wide : 1 < base) (member : c ∈ Nat.toDigits base n) :
    ∃ d < base, c = d.digitChar := by
  induction n using Nat.base_induction base wide with
  | single d small =>
    rw [Nat.toDigits_of_lt_base small, List.mem_singleton] at member
    exact ⟨d, small, member⟩
  | digit k d small positive ih =>
    rw [← Nat.toDigits_append_toDigits wide positive small, List.mem_append,
      Nat.toDigits_of_lt_base small, List.mem_singleton] at member
    rcases member with front | last
    · exact ih front
    · exact ⟨d, small, last⟩

theorem digitChar_inj (hm : m < 16) (hn : n < 16) (same : m.digitChar = n.digitChar) : m = n := by
  have all : ∀ m < 16, ∀ n < 16, m.digitChar = n.digitChar → m = n := by decide
  exact all m hm n hn same

/-- Digits tell numbers apart. -/
theorem toDigits_inj (wide : 1 < base) (known : base ≤ 16)
    (same : Nat.toDigits base m = Nat.toDigits base n) : m = n := by
  induction m using Nat.strongRecOn generalizing n with
  | ind m ih =>
    rcases Nat.lt_or_ge m base with hm | hm <;> rcases Nat.lt_or_ge n base with hn | hn
    · rw [Nat.toDigits_of_lt_base hm, Nat.toDigits_of_lt_base hn] at same
      exact digitChar_inj (by omega) (by omega) (List.cons.inj same).1
    · rw [Nat.toDigits_of_lt_base hm, Nat.toDigits_of_base_le wide hn] at same
      exact absurd (congrArg List.length same) (by simp)
    · rw [Nat.toDigits_of_base_le wide hm, Nat.toDigits_of_lt_base hn] at same
      exact absurd (congrArg List.length same) (by simp)
    · rw [Nat.toDigits_of_base_le wide hm, Nat.toDigits_of_base_le wide hn] at same
      obtain ⟨front, last⟩ := List.append_inj' same rfl
      have quotient : m / base = n / base := ih _ (Nat.div_lt_self (by omega) wide) front
      have remainder : m % base = n % base :=
        digitChar_inj (Nat.lt_of_lt_of_le (Nat.mod_lt m (by omega)) known)
          (Nat.lt_of_lt_of_le (Nat.mod_lt n (by omega)) known) (List.cons.inj last).1
      rw [← Nat.div_add_mod m base, ← Nat.div_add_mod n base, quotient, remainder]

/-- A number ends in front of a character that is no digit. -/
theorem writeNat_append_inj {c : Char} {x y : Text} (stops : c.isDigit = false)
    (same : writeNat m ++ c :: x = writeNat n ++ c :: y) : m = n ∧ x = y := by
  have absent : ∀ k : Nat, c ∉ writeNat k := fun k member => by
    have digit := Nat.isDigit_of_mem_toDigits (by decide) (by decide) member
    rw [stops] at digit
    cases digit
  obtain ⟨digits, rest⟩ := Text.append_cons_inj (absent m) (absent n) same
  exact ⟨toDigits_inj (by decide) (by decide) digits, rest⟩

end Digits

namespace Text

theorem shortEscape?_inj {c d e : Char} (hc : shortEscape? c = some e)
    (hd : shortEscape? d = some e) : c = d := by
  unfold shortEscape? at hc hd
  split at hc <;> cases hc <;> split at hd <;> first | rfl | cases hd

/-- How a character can stand between quotes. -/
inductive Written (c : Char) : Text → Prop
  | short (e : Char) (escape : shortEscape? c = some e) : Written c ['\\', e]
  | plain (visible : c ≠ '\\' ∧ c ≠ '"') : Written c [c]
  | code : Written c ('\\' :: 'u' :: '\x7b' :: (Nat.toDigits 16 c.toNat ++ ['\x7d']))

theorem written (c : Char) : Written c (quoteChar c) := by
  unfold quoteChar
  cases short : shortEscape? c with
  | some e => exact .short e short
  | none =>
    have other : c ≠ '\\' ∧ c ≠ '"' := by
      constructor <;> rintro rfl <;> cases short
    by_cases visible : isVisible c
    · simp only [visible]
      exact .plain other
    · simp only [visible]
      exact .code

theorem shortEscape?_ne_u {c : Char} : shortEscape? c ≠ some 'u' := by
  unfold shortEscape?
  split <;> simp

theorem notMem_toDigits_brace (n : Nat) : '\x7d' ∉ Nat.toDigits 16 n := fun member => by
  obtain ⟨d, small, same⟩ := digitChar_of_mem_toDigits (by decide) member
  have none : ∀ d < 16, '\x7d' ≠ d.digitChar := by decide
  exact none d small same

/-- What stands for a character shows where it ends. -/
theorem quoteChar_append_inj {c d : Char} {x y : Text}
    (same : quoteChar c ++ x = quoteChar d ++ y) : c = d ∧ x = y := by
  have hc := written c
  have hd := written d
  generalize quoteChar c = a at hc same
  generalize quoteChar d = b at hd same
  cases hc with
  | short e escape =>
    cases hd with
    | short e' escape' =>
      obtain ⟨-, rfl, rfl⟩ : '\\' = '\\' ∧ e = e' ∧ x = y := by simpa using same
      exact ⟨shortEscape?_inj escape escape', rfl⟩
    | plain visible => exact (visible.1 (List.cons.inj same).1.symm).elim
    | code =>
      obtain rfl : e = 'u' := (List.cons.inj (List.cons.inj same).2).1
      exact (shortEscape?_ne_u escape).elim
  | plain visible =>
    cases hd with
    | short e' _ => exact (visible.1 (List.cons.inj same).1).elim
    | plain _ => exact List.cons.inj same
    | code => exact (visible.1 (List.cons.inj same).1).elim
  | code =>
    cases hd with
    | short e' escape' =>
      obtain rfl : 'u' = e' := (List.cons.inj (List.cons.inj same).2).1
      exact (shortEscape?_ne_u escape').elim
    | plain visible => exact (visible.1 (List.cons.inj same).1.symm).elim
    | code =>
      have rest : Nat.toDigits 16 c.toNat ++ '\x7d' :: x =
          Nat.toDigits 16 d.toNat ++ '\x7d' :: y := by
        simpa using same
      obtain ⟨digits, rfl⟩ :=
        append_cons_inj (notMem_toDigits_brace _) (notMem_toDigits_brace _) rest
      exact ⟨Char.toNat_inj.1 (toDigits_inj (by decide) (by decide) digits), rfl⟩

/-- Nothing that stands for a character begins as the closing quote does. -/
theorem quoteChar_append_ne (c : Char) (x y : Text) : quoteChar c ++ x ≠ '"' :: y := by
  have hc := written c
  generalize quoteChar c = a at hc
  cases hc with
  | short e escape => simp
  | plain visible => simp [visible.2]
  | code => simp

/-- Quoted text shows where it ends. -/
theorem quote_append_inj {a b x y : Text} (same : a.quote ++ x = b.quote ++ y) : a = b ∧ x = y := by
  have rest : a.flatMap quoteChar ++ '"' :: x = b.flatMap quoteChar ++ '"' :: y := by
    simpa [quote] using same
  clear same
  induction a generalizing b with
  | nil =>
    cases b with
    | nil => exact ⟨rfl, (List.cons.inj rest).2⟩
    | cons d b =>
      rw [List.flatMap_cons, List.append_assoc] at rest
      exact (quoteChar_append_ne d _ _ rest.symm).elim
  | cons c a ih =>
    cases b with
    | nil =>
      rw [List.flatMap_cons, List.append_assoc] at rest
      exact (quoteChar_append_ne c _ _ rest).elim
    | cons d b =>
      rw [List.flatMap_cons, List.flatMap_cons, List.append_assoc, List.append_assoc] at rest
      obtain ⟨rfl, further⟩ := quoteChar_append_inj rest
      obtain ⟨rfl, tail⟩ := ih further
      exact ⟨rfl, tail⟩

end Text

theorem Kind.space_notMem_name (k : Kind) : ' ' ∉ k.name.toList := by
  have none : ∀ k ∈ all, ' ' ∉ k.name.toList := by decide +kernel
  exact none k k.mem_all

theorem Kind.name_inj {k k' : Kind} (same : k.name = k'.name) : k = k' :=
  Option.some.inj ((ofName?_eq_some_iff.2 rfl).symm.trans (ofName?_eq_some_iff.2 same))

/-- A name ends in front of a space. -/
theorem Kind.name_append_inj {k k' : Kind} {x y : Text}
    (same : k.name.toList ++ ' ' :: x = k'.name.toList ++ ' ' :: y) : k = k' ∧ x = y := by
  obtain ⟨name, rest⟩ := Text.append_cons_inj k.space_notMem_name k'.space_notMem_name same
  exact ⟨name_inj (String.toList_inj.1 name), rest⟩

namespace Token

/-- The heading of a token without a value shows where it ends, and all the token has but the tokens
inside. -/
theorem heading_append_inj {line line' start start' : Nat} {literal literal' x y : Text}
    {kind kind' : Kind} (same : heading line start literal kind none ++ x =
      heading line' start' literal' kind' none ++ y) :
    (line = line' ∧ start = start' ∧ literal = literal' ∧ kind = kind') ∧ x = y := by
  simp only [heading, List.append_assoc, List.cons_append, List.nil_append] at same
  obtain ⟨rfl, afterLiteral⟩ := Text.quote_append_inj same
  obtain ⟨rfl, afterKind⟩ := Kind.name_append_inj (List.cons.inj afterLiteral).2
  obtain ⟨rfl, afterLine⟩ := writeNat_append_inj (by decide) (List.cons.inj afterKind).2
  obtain ⟨rfl, afterStart⟩ := writeNat_append_inj (by decide) afterLine
  exact ⟨⟨rfl, rfl, rfl, rfl⟩, afterStart⟩

/-- No token of the tree has a value. -/
def Bare (t : Token) : Prop := ∀ u ∈ t.descendants, u.value = none

theorem bare_iff {t : Token} : t.Bare ↔ t.value = none ∧ ∀ c ∈ t.children, c.Bare := by
  simp only [Bare, mem_descendants_iff]
  constructor
  · intro h
    refine ⟨h t (self_mem_listing t), fun c child u inside => h u ?_⟩
    exact mem_listing_iff.2 (Or.inr ⟨c, child, inside⟩)
  · rintro ⟨own, inner⟩ u member
    rcases mem_listing_iff.1 member with rfl | ⟨c, child, inside⟩
    · exact own
    · exact inner c child u inside

/-- What can stand behind tokens at a depth: nothing, or a line that is not as deep. -/
def Outside (depth : Nat) (x : Text) : Prop :=
  x = [] ∨ ∃ k < depth, ∃ y, x = List.replicate (4 * k) ' ' ++ '"' :: y

/-- The front of a line shows its depth. -/
theorem indentation_append_inj {m n : Nat} {x y : Text}
    (same : List.replicate (4 * m) ' ' ++ '"' :: x = List.replicate (4 * n) ' ' ++ '"' :: y) :
    m = n ∧ x = y := by
  have absent : ∀ k, '"' ∉ List.replicate k ' ' := fun k member => by
    simpa using List.eq_of_mem_replicate member
  obtain ⟨spaces, rest⟩ := Text.append_cons_inj (absent _) (absent _) same
  have length := congrArg List.length spaces
  simp only [List.length_replicate] at length
  exact ⟨by omega, rest⟩

theorem dumpAt_eq (depth : Nat) (t : Token) : ∃ y,
    dumpAt depth t = List.replicate (4 * depth) ' ' ++ '"' :: y := by
  cases t with
  | mk line start literal kind children value =>
    simp only [dumpAt, heading, Text.quote, List.append_assoc, List.cons_append]
    exact ⟨_, rfl⟩

/-- The lines of a token do not stand behind tokens of its depth. -/
theorem dumpAt_not_outside {depth : Nat} {t : Token} {x : Text} :
    ¬ Outside depth (dumpAt depth t ++ x) := by
  obtain ⟨y, front⟩ := dumpAt_eq depth t
  rw [front, List.append_assoc, List.cons_append]
  rintro (empty | ⟨k, shallow, z, same⟩)
  · simp at empty
  · obtain ⟨rfl, -⟩ := indentation_append_inj same
    exact Nat.lt_irrefl _ shallow

/-- Tokens at a depth stand behind deeper ones. -/
theorem outside_dumpAllAt {depth : Nat} {x : Text} (h : Outside depth x) (l : List Token) :
    Outside (depth + 1) (dumpAllAt depth l ++ x) := by
  cases l with
  | nil =>
    rcases h with empty | ⟨k, shallow, y, same⟩
    · exact Or.inl empty
    · exact Or.inr ⟨k, Nat.lt_succ_of_lt shallow, y, same⟩
  | cons t l =>
    obtain ⟨y, front⟩ := dumpAt_eq depth t
    refine Or.inr ⟨depth, Nat.lt_succ_self depth, y ++ (dumpAllAt depth l ++ x), ?_⟩
    rw [dumpAllAt, front]
    simp

/-- The lines of a token show where they end. -/
def Delimited (t : Token) : Prop := ∀ depth u x y, t.Bare → u.Bare → Outside (depth + 1) x →
  Outside (depth + 1) y → dumpAt depth t ++ x = dumpAt depth u ++ y → t = u ∧ x = y

/-- The lines of a list of tokens show where they end if those of each token do. -/
theorem dumpAllAt_append_inj {l m : List Token} {depth : Nat} {x y : Text}
    (each : ∀ t ∈ l, t.Delimited) (hl : ∀ t ∈ l, t.Bare) (hm : ∀ t ∈ m, t.Bare)
    (hx : Outside depth x) (hy : Outside depth y)
    (same : dumpAllAt depth l ++ x = dumpAllAt depth m ++ y) : l = m ∧ x = y := by
  induction l generalizing m with
  | nil =>
    cases m with
    | nil => exact ⟨rfl, same⟩
    | cons u m =>
      have front : x = dumpAt depth u ++ (dumpAllAt depth m ++ y) := by
        simpa [dumpAllAt] using same
      exact (dumpAt_not_outside (front ▸ hx)).elim
  | cons t l ih =>
    cases m with
    | nil =>
      have front : dumpAt depth t ++ (dumpAllAt depth l ++ x) = y := by
        simpa [dumpAllAt] using same
      exact (dumpAt_not_outside (front ▸ hy)).elim
    | cons u m =>
      rw [List.forall_mem_cons] at each hl hm
      have first : dumpAt depth t ++ (dumpAllAt depth l ++ x) =
          dumpAt depth u ++ (dumpAllAt depth m ++ y) := by
        simpa [dumpAllAt] using same
      obtain ⟨rfl, rest⟩ := each.1 depth u _ _ hl.1 hm.1 (outside_dumpAllAt hx l)
        (outside_dumpAllAt hy m) first
      obtain ⟨rfl, behind⟩ := ih each.2 hl.2 hm.2 rest
      exact ⟨rfl, behind⟩

theorem delimited (t : Token) : t.Delimited := by
  induction t using Token.induction with
  | node line start literal kind children value ih =>
    rintro depth ⟨line', start', literal', kind', children', value'⟩ x y ht hu hx hy same
    obtain ⟨rfl, inner⟩ := bare_iff.1 ht
    obtain ⟨rfl, inner'⟩ := bare_iff.1 hu
    simp only [dumpAt, List.append_assoc, List.append_cancel_left_eq] at same
    obtain ⟨⟨rfl, rfl, rfl, rfl⟩, lines⟩ := heading_append_inj same
    obtain ⟨rfl, rest⟩ := dumpAllAt_append_inj ih inner inner' hx hy (List.cons.inj lines).2
    exact ⟨rfl, rest⟩

/-- The dumps of trees without values, one after the other, determine the trees. -/
theorem flatMap_dump_inj {l m : List Token} (hl : ∀ t ∈ l, t.Bare) (hm : ∀ t ∈ m, t.Bare)
    (same : l.flatMap dump = m.flatMap dump) : l = m := by
  have whole : dumpAllAt 0 l ++ [] = dumpAllAt 0 m ++ [] := by
    rw [dumpAllAt_eq_flatMap, dumpAllAt_eq_flatMap, List.append_nil, List.append_nil]
    exact same
  exact (dumpAllAt_append_inj (fun t _ => t.delimited) hl hm (Or.inl rfl) (Or.inl rfl) whole).1

/-- A literal that looks like the line of a token inside is no such line. -/
example :
    let inner : Token := { line := 0, start := 0, literal := ['b'], kind := .identifier }
    let outer : Token := { line := 0, start := 0, literal := ['a'], kind := .command
                           children := [inner] }
    let twin : Token := { line := 0, start := 0, kind := .identifier
                          literal := "a\" command-name (0:0)\n    \"b".toList }
    dump outer = "\"a\" command-name (0:0)\n    \"b\" identifier (0:0)\n".toList ∧
      dump twin ≠ dump outer := by
  decide +kernel

theorem bare_shown (line : Nat) (text : Text) (stripWhitespace : Bool) :
    ((ofLine line text).shown stripWhitespace false).Bare := fun u member =>
  value_shown u (mem_descendants_iff.1 member)

end Token

namespace Output

/-- Lists of trees without values are told apart by their dumps. So the dump of a source determines
the trees that it shows. -/
theorem tokens_plain_faithful :
    (∀ l m : List Token, (∀ t ∈ l, ∀ u ∈ t.descendants, u.value = none) →
      (∀ t ∈ m, ∀ u ∈ t.descendants, u.value = none) →
      l.flatMap Token.dump = m.flatMap Token.dump → l = m) ∧
    ∀ (s s' : Settings) (source source' : Text) (strip strip' : Bool),
      wholeText (tokens (Document.ofText s source) false strip false).pieces =
        wholeText (tokens (Document.ofText s' source') false strip' false).pieces →
      (Document.ofText s source).shownTrees strip false =
        (Document.ofText s' source').shownTrees strip' false := by
  refine ⟨fun l m hl hm same => Token.flatMap_dump_inj hl hm same,
    fun s s' source source' strip strip' same => ?_⟩
  have bare : ∀ (s : Settings) (source : Text) (strip : Bool),
      ∀ t ∈ (Document.ofText s source).shownTrees strip false, t.Bare := by
    intro s source strip t member
    obtain ⟨line, piece, rfl⟩ := Document.exists_line_of_mem_shownTrees member
    exact Token.bare_shown line piece strip
  rw [wholeText_tokens_plain, wholeText_tokens_plain] at same
  exact Token.flatMap_dump_inj (bare s source strip) (bare s' source' strip') same

end Output
end LineTree
