import LineTree.Proofs.JsonReader

/-!
# JSON text is read back

Reading the text of a value gives the value again: a number as its text, and one that is not finite
as null. What is written for a value is a word, a string, or a bracket with values inside, and the
reader needs no more steps than the text has characters. Main statements:
`Json.readItems?_render`, `Json.readFields?_render`, `Json.reads`, `Json.read?_render`.
-/
namespace LineTree.Json

mutual

/-- What the text of a value says: numbers are as they are written, and one that is not finite is
null. -/
def node : Json → Node
  | integer n => .number (writeInteger n)
  | float x =>
    match x.size with
    | .finite _ _ => .number (floatStyle.write x)
    | _ => .null
  | string t => .string t
  | array items => .array (nodes items)
  | object fields => .object (fieldNodes fields)

def nodes : List Json → List Node
  | [] => []
  | j :: rest => j.node :: nodes rest

def fieldNodes : List (Text × Json) → List (Text × Node)
  | [] => []
  | (key, value) :: rest => (key, value.node) :: fieldNodes rest

end

/-- Induction over a value and all values inside it. -/
@[elab_as_elim]
theorem induction {motive : Json → Prop} (integer : ∀ n, motive (.integer n))
    (float : ∀ x, motive (.float x)) (string : ∀ t, motive (.string t))
    (array : ∀ items, (∀ j ∈ items, motive j) → motive (.array items))
    (object : ∀ fields, (∀ f ∈ fields, motive f.2) → motive (.object fields)) (j : Json) :
    motive j :=
  @Json.rec motive (fun l => ∀ j ∈ l, motive j) (fun l => ∀ f ∈ l, motive f.2)
    (fun f => motive f.2) integer float string array object
    (fun _ h => nomatch h)
    (fun head tail hh ht j hj => by
      rcases List.mem_cons.1 hj with rfl | h
      · exact hh
      · exact ht j h)
    (fun _ h => nomatch h)
    (fun head tail hh ht f hf => by
      rcases List.mem_cons.1 hf with rfl | h
      · exact hh
      · exact ht f h)
    (fun _ _ h => h)
    j

/-- A word that says what the value is. -/
structure Word (j : Json) (word : Text) : Prop where
  text : ∀ level, renderAt level j = word
  nonempty : word ≠ []
  chars : ∀ c ∈ word, isWordChar c = true
  means : wordNode? word = some j.node

/-- A value that is written as a numeral is a word. -/
theorem word_numeral {j : Json} {n : Numeral} (negative : Bool) (proper : n.Proper)
    (text : ∀ level, renderAt level j = (if negative then ['-'] else []) ++ n.text)
    (means : j.node = .number ((if negative then ['-'] else []) ++ n.text)) :
    Word j ((if negative then ['-'] else []) ++ n.text) where
  text := text
  nonempty := by
    obtain ⟨c, t, digits, -⟩ := proper.text_eq_cons
    rw [digits]
    exact List.append_ne_nil_of_right_ne_nil _ (List.cons_ne_nil c t)
  chars _ member := isWordChar_of_mem_text proper member
  means := by
    rw [means]
    exact wordNode?_number (isNumber_text proper negative)

theorem word_null {x : Binary64} (text : floatStyle.write x = "null".toList)
    (means : (float x).node = .null) : Word (float x) "null".toList where
  text level := by
    rw [renderAt]
    exact text
  nonempty := by decide
  chars := List.all_eq_true.1 rfl
  means := by
    rw [means]
    rfl

theorem exists_word_integer (n : Int) : ∃ word, Word (integer n) word := by
  have text := Numeral.writeInteger_eq n
  refine ⟨_, word_numeral (decide (n < 0)) (Numeral.ofNat_proper n.natAbs) (fun level => ?_) ?_⟩
  · rw [renderAt]
    exact text
  · rw [node, text]

theorem exists_word_float (x : Binary64) : ∃ word, Word (float x) word := by
  cases size : x.size with
  | finite m e =>
    have text := floatStyle.write_eq size
    refine ⟨_, word_numeral x.negative (floatStyle.numeral_proper size) (fun level => ?_) ?_⟩
    · rw [renderAt]
      exact text
    · rw [node, size, ← text]
  | infinite => exact ⟨_, word_null (by rw [DecimalStyle.write, size]; rfl) (by rw [node, size])⟩
  | notANumber => exact ⟨_, word_null (by rw [DecimalStyle.write, size]; rfl) (by rw [node, size])⟩

theorem Word.front {j : Json} {word : Text} (h : Word j word) (level : Nat) :
    ∃ c t, renderAt level j = c :: t ∧ isSpace c = false ∧ c ≠ ']' := by
  rw [h.text]
  cases word with
  | nil => exact (h.nonempty rfl).elim
  | cons c t =>
    obtain ⟨solid, -, -, -, bracket⟩ := isWordChar_front (h.chars c List.mem_cons_self)
    exact ⟨c, t, rfl, solid, bracket⟩

/-- No value begins as a closing bracket or with space. -/
theorem renderAt_front (level : Nat) (j : Json) :
    ∃ c t, renderAt level j = c :: t ∧ isSpace c = false ∧ c ≠ ']' := by
  cases j with
  | integer n =>
    obtain ⟨word, h⟩ := exists_word_integer n
    exact h.front level
  | float x =>
    obtain ⟨word, h⟩ := exists_word_float x
    exact h.front level
  | string t => exact ⟨'"', _, by rw [renderAt, stringText], by decide, by decide⟩
  | array items =>
    cases items with
    | nil => exact ⟨'[', _, by rw [renderAt], by decide, by decide⟩
    | cons item items => exact ⟨'[', _, by rw [renderAt], by decide, by decide⟩
  | object fields =>
    cases fields with
    | nil => exact ⟨'\x7b', _, by rw [renderAt], by decide, by decide⟩
    | cons field fields => exact ⟨'\x7b', _, by rw [renderAt], by decide, by decide⟩

theorem renderAt_length_pos (level : Nat) (j : Json) : 0 < (renderAt level j).length := by
  obtain ⟨c, t, text, -⟩ := renderAt_front level j
  rw [text]
  exact Nat.succ_pos _

/-- The text of the value is read as what it says, whatever follows. -/
def Reads (j : Json) : Prop := ∀ level steps rest, (renderAt level j).length ≤ steps → Ends rest →
  readValue? steps (renderAt level j ++ rest) = some (j.node, rest)

/-- No text of a value is empty, so there is always a step left to read it. -/
theorem Reads.of_succ {j : Json} (h : ∀ level steps rest, (renderAt level j).length ≤ steps + 1 →
    Ends rest → readValue? (steps + 1) (renderAt level j ++ rest) = some (j.node, rest)) :
    j.Reads := by
  intro level steps rest enough ends
  cases steps with
  | zero => exact absurd enough (Nat.not_le.2 (renderAt_length_pos level j))
  | succ steps => exact h level steps rest enough ends

theorem Word.reads {j : Json} {word : Text} (h : Word j word) : j.Reads := by
  refine .of_succ fun level steps rest _ ends => ?_
  rw [h.text]
  exact readValue?_word h.chars h.nonempty ends h.means

theorem reads_string (t : Text) : (string t).Reads := by
  refine .of_succ fun level steps rest _ _ => ?_
  rw [renderAt, stringText, List.cons_append, List.append_assoc, readValue?,
    skipSpace_cons (by decide)]
  dsimp only
  rw [if_pos rfl, List.singleton_append, readString?_flatMap t rest, Option.map_some, node]

section Sequences

variable {level outer steps : Nat} {rest : Text}

/-- Text behind a value, up to the closing bracket around it, is no part of it. -/
theorem ends_newLine (level : Nat) (t : Text) : Ends (newLine level ++ t) := by
  intro c first
  obtain rfl : '\n' = c := by simpa [newLine] using first
  rfl

theorem ends_renderItems (items : List Json) :
    Ends (renderItems level items ++ (newLine outer ++ rest)) := by
  cases items with
  | nil => exact ends_newLine outer rest
  | cons item items =>
    intro c first
    obtain rfl : ',' = c := by simpa [renderItems] using first
    rfl

theorem ends_renderFields (fields : List (Text × Json)) :
    Ends (renderFields level fields ++ (newLine outer ++ rest)) := by
  cases fields with
  | nil => exact ends_newLine outer rest
  | cons field fields =>
    intro c first
    obtain rfl : ',' = c := by simpa [renderFields] using first
    rfl

theorem Reads.onNewLine {j : Json} (h : j.Reads) (enough : (renderAt level j).length ≤ steps)
    (ends : Ends rest) :
    readValue? steps (newLine level ++ (renderAt level j ++ rest)) = some (j.node, rest) :=
  (readValue?_congr (skipSpace_newLine level _)).trans (h level steps rest enough ends)

/-- The items of an array are read if each of them is. -/
theorem readItems?_render {item : Json} {items : List Json}
    (each : ∀ j ∈ item :: items, j.Reads)
    (enough : (renderAt level item ++ renderItems level items).length < steps) :
    readItems? steps (newLine level ++ (renderAt level item ++ (renderItems level items ++
      (newLine outer ++ ']' :: rest)))) = some (item.node :: nodes items, rest) := by
  obtain ⟨n, rfl⟩ : ∃ n, steps = n + 1 := ⟨steps - 1, by omega⟩
  rw [List.length_append] at enough
  induction items generalizing item n with
  | nil =>
    exact readItems?_last ((each item List.mem_cons_self).onNewLine (by omega) (ends_renderItems []))
      (skipSpace_newLine outer _)
  | cons next items ih =>
    have positive := renderAt_length_pos level item
    have comma : skipSpace (renderItems level (next :: items) ++ (newLine outer ++ ']' :: rest)) =
        ',' :: (newLine level ++ (renderAt level next ++ (renderItems level items ++
          (newLine outer ++ ']' :: rest)))) := by
      rw [renderItems, List.cons_append, skipSpace_cons (by decide), List.append_assoc,
        List.append_assoc]
    simp only [renderItems, List.length_append, List.length_cons] at enough
    obtain ⟨k, rfl⟩ : ∃ k, n = k + 1 := ⟨n - 1, by omega⟩
    refine readItems?_more ?_ comma (ih (fun j member => each j (List.mem_cons_of_mem item member)) k
      (by omega))
    exact (each item List.mem_cons_self).onNewLine (by omega) (ends_renderItems _)

theorem readKey?_render (key t : Text) :
    readKey? (newLine level ++ (stringText key ++ (':' :: t))) = some (key, t) := by
  have quote : skipSpace (newLine level ++ (stringText key ++ (':' :: t))) =
      '"' :: (key.flatMap stringChar ++ '"' :: (':' :: t)) := by
    rw [skipSpace_newLine, stringText, List.cons_append, skipSpace_cons (by decide),
      List.append_assoc, List.singleton_append]
  exact readKey?_eq quote (readString?_flatMap key (':' :: t)) (skipSpace_cons (by decide))

theorem Reads.afterSpace {j : Json} (h : j.Reads) (enough : (renderAt level j).length ≤ steps)
    (ends : Ends rest) : readValue? steps (' ' :: (renderAt level j ++ rest)) = some (j.node, rest) :=
  (readValue?_space _).trans (h level steps rest enough ends)

/-- The fields of an object are read if their values are. -/
theorem readFields?_render {key : Text} {value : Json} {fields : List (Text × Json)}
    (each : ∀ f ∈ (key, value) :: fields, f.2.Reads)
    (enough : (renderAt level value ++ renderFields level fields).length < steps) :
    readFields? steps (newLine level ++ (stringText key ++ (':' :: ' ' :: (renderAt level value ++
      (renderFields level fields ++ (newLine outer ++ '\x7d' :: rest)))))) =
      some ((key, value.node) :: fieldNodes fields, rest) := by
  obtain ⟨n, rfl⟩ : ∃ n, steps = n + 1 := ⟨steps - 1, by omega⟩
  rw [List.length_append] at enough
  induction fields generalizing key value n with
  | nil =>
    have own : value.Reads := each (key, value) List.mem_cons_self
    exact readFields?_last (readKey?_render key _) (own.afterSpace (by omega) (ends_renderFields []))
      (skipSpace_newLine outer _)
  | cons next fields ih =>
    obtain ⟨key', value'⟩ := next
    have positive := renderAt_length_pos level value
    have comma : skipSpace (renderFields level ((key', value') :: fields) ++
        (newLine outer ++ '\x7d' :: rest)) =
        ',' :: (newLine level ++ (stringText key' ++ (':' :: ' ' :: (renderAt level value' ++
          (renderFields level fields ++ (newLine outer ++ '\x7d' :: rest)))))) := by
      rw [renderFields, List.cons_append, skipSpace_cons (by decide)]
      simp only [List.append_assoc, List.cons_append, List.nil_append]
    have members : ∀ f ∈ (key', value') :: fields, f.2.Reads := fun f member =>
      each f (List.mem_cons_of_mem (key, value) member)
    simp only [renderFields, List.length_append, List.length_cons] at enough
    obtain ⟨k, rfl⟩ : ∃ k, n = k + 1 := ⟨n - 1, by omega⟩
    have own : value.Reads := each (key, value) List.mem_cons_self
    refine readFields?_more (readKey?_render key _) ?_ comma (ih members k (by omega))
    exact own.afterSpace (by omega) (ends_renderFields _)

end Sequences

theorem reads_array {items : List Json} (each : ∀ j ∈ items, j.Reads) : (array items).Reads := by
  refine .of_succ fun level steps rest enough _ => ?_
  cases items with
  | nil => rfl
  | cons item items =>
    rw [renderAt] at enough ⊢
    simp only [List.length_cons, List.length_append] at enough
    simp only [List.cons_append, List.append_assoc, List.nil_append]
    refine readValue?_array ?_ (readItems?_render each ?_)
    · obtain ⟨c, t, text, solid, other⟩ := renderAt_front (level + 1) item
      rw [skipSpace_newLine, text, List.cons_append, skipSpace_cons solid]
      simpa using other
    · rw [List.length_append]
      omega

theorem reads_object {fields : List (Text × Json)} (each : ∀ f ∈ fields, f.2.Reads) :
    (object fields).Reads := by
  refine .of_succ fun level steps rest enough _ => ?_
  cases fields with
  | nil => rfl
  | cons field fields =>
    obtain ⟨key, value⟩ := field
    rw [renderAt] at enough ⊢
    simp only [List.length_cons, List.length_append] at enough
    simp only [List.cons_append, List.append_assoc, List.nil_append]
    refine readValue?_object ?_ (readFields?_render each ?_)
    · rw [skipSpace_newLine, stringText, List.cons_append, skipSpace_cons (by decide)]
      simp
    · rw [List.length_append]
      omega

/-- The text of every value is read as what it says. -/
theorem reads (j : Json) : j.Reads := by
  induction j using Json.induction with
  | integer n =>
    obtain ⟨word, h⟩ := exists_word_integer n
    exact h.reads
  | float x =>
    obtain ⟨word, h⟩ := exists_word_float x
    exact h.reads
  | string t => exact reads_string t
  | array items ih => exact reads_array ih
  | object fields ih => exact reads_object ih

/-- The text of a value holds that value and nothing else. -/
theorem read?_render (j : Json) : read? j.render = some j.node := by
  have whole : readValue? (j.render.length + 1) (j.render ++ []) = some (j.node, []) :=
    j.reads 0 _ [] (Nat.le_succ _) (fun _ h => nomatch h)
  rw [List.append_nil] at whole
  rw [read?, whole]
  rfl

end LineTree.Json
