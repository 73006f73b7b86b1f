import LineTree.Json
import LineTree.Proofs.Numeral

/-!
# A reader of JSON text

It follows RFC 8259, keeps numbers as they stand once it has checked their form, and knows nothing
of how a text was laid out. Strings are read through their escapes, and numerals have the form of
numbers. Main statements: `Json.readString?_flatMap`, `Json.isNumber_text`, `Json.readValue?_word`.
-/
namespace LineTree.Json

/-- What a JSON text says. -/
inductive Node where
  | null
  | boolean (b : Bool)
  /-- A number, as it stands in the text. -/
  | number (t : Text)
  | string (t : Text)
  | array (items : List Node)
  | object (fields : List (Text × Node))

/-- The space between the parts of a text. -/
def isSpace (c : Char) : Bool := c == ' ' || c == '\t' || c == '\n' || c == '\r'

def skipSpace (t : Text) : Text := t.dropWhile isSpace

/-- The character that stands for itself or another one behind a backslash. -/
def unescape? : Char → Option Char
  | '"' => some '"'
  | '\\' => some '\\'
  | '/' => some '/'
  | 'b' => some '\x08'
  | 'f' => some '\x0c'
  | 'n' => some '\n'
  | 'r' => some '\r'
  | 't' => some '\t'
  | _ => none

def hexValue? (c : Char) : Option Nat :=
  if '0' ≤ c ∧ c ≤ '9' then some (c.toNat - '0'.toNat)
  else if 'a' ≤ c ∧ c ≤ 'f' then some (c.toNat - 'a'.toNat + 10)
  else if 'A' ≤ c ∧ c ≤ 'F' then some (c.toNat - 'A'.toNat + 10)
  else none

/-- The character with a code of four hexadecimal digits. Half of a surrogate pair is none:
characters beyond these codes stand in the text themselves. -/
def coded? (a b c d : Char) : Option Char :=
  match hexValue? a, hexValue? b, hexValue? c, hexValue? d with
  | some a, some b, some c, some d =>
    let code := 4096 * a + 256 * b + 16 * c + d
    if code.isValidChar then some (Char.ofNat code) else none
  | _, _, _, _ => none

/-- Reads a string up to its closing quote. Controls may not stand in it. -/
def readString? : Text → Option (Text × Text)
  | [] => none
  | c :: rest =>
    if c = '"' then some ([], rest)
    else if c = '\\' then
      match rest with
      | 'u' :: a :: b :: c :: d :: rest =>
        match coded? a b c d, readString? rest with
        | some x, some (t, rest) => some (x :: t, rest)
        | _, _ => none
      | e :: rest =>
        match unescape? e, readString? rest with
        | some x, some (t, rest) => some (x :: t, rest)
        | _, _ => none
      | [] => none
    else if c.toNat < 0x20 then none
    else (readString? rest).map fun (t, rest) => (c :: t, rest)

/-- At least one digit, and nothing else. -/
def isDigits (t : Text) : Bool := !t.isEmpty && t.all Char.isDigit

/-- Nothing, or an exponent with an optional sign. -/
def isExponent : Text → Bool
  | [] => true
  | e :: rest => (e == 'e' || e == 'E') && isDigits
      (match rest with
      | '+' :: rest => rest
      | '-' :: rest => rest
      | _ => rest)

/-- The text of a number without its minus sign. -/
def unsigned (t : Text) : Text :=
  match t with
  | '-' :: rest => rest
  | _ => t

/-- A number: an optional sign, digits without a leading zero, an optional point with digits behind
it, an optional exponent. -/
def isNumber (t : Text) : Bool :=
  let whole := (unsigned t).takeWhile Char.isDigit
  let behind := (unsigned t).dropWhile Char.isDigit
  let (fraction, tail) := splitFraction behind
  isDigits whole && (whole == ['0'] || whole.head? != some '0')
    && (behind.head? != some '.' || isDigits fraction) && isExponent tail

/-- The characters of numbers and of the words `null`, `true` and `false`. -/
def isWordChar (c : Char) : Bool := c.isAlphanum || c == '+' || c == '-' || c == '.'

def wordNode? (t : Text) : Option Node :=
  if t = "null".toList then some .null
  else if t = "true".toList then some (.boolean true)
  else if t = "false".toList then some (.boolean false)
  else if isNumber t then some (.number t)
  else none

/-- Reads the key of a field and the colon behind it. -/
def readKey? (t : Text) : Option (Text × Text) :=
  match skipSpace t with
  | '"' :: rest =>
    (readString? rest).bind fun (key, rest) =>
      match skipSpace rest with
      | ':' :: rest => some (key, rest)
      | _ => none
  | _ => none

mutual

/-- Reads a value from the front of a text, within so many steps. -/
def readValue? : Nat → Text → Option (Node × Text)
  | 0, _ => none
  | steps + 1, t =>
    match skipSpace t with
    | [] => none
    | c :: rest =>
      if c = '"' then (readString? rest).map fun (s, rest) => (.string s, rest)
      else if c = '[' then
        match skipSpace rest with
        | ']' :: rest => some (.array [], rest)
        | _ => (readItems? steps rest).map fun (items, rest) => (.array items, rest)
      else if c = '{' then
        match skipSpace rest with
        | '}' :: rest => some (.object [], rest)
        | _ => (readFields? steps rest).map fun (fields, rest) => (.object fields, rest)
      else
        (wordNode? ((c :: rest).takeWhile isWordChar)).map fun node =>
          (node, (c :: rest).dropWhile isWordChar)

/-- Reads the items of an array and its closing bracket. -/
def readItems? : Nat → Text → Option (List Node × Text)
  | 0, _ => none
  | steps + 1, t =>
    (readValue? steps t).bind fun (item, rest) =>
      match skipSpace rest with
      | ',' :: rest => (readItems? steps rest).map fun (items, rest) => (item :: items, rest)
      | ']' :: rest => some ([item], rest)
      | _ => none

/-- Reads the fields of an object and its closing bracket. -/
def readFields? : Nat → Text → Option (List (Text × Node) × Text)
  | 0, _ => none
  | steps + 1, t =>
    (readKey? t).bind fun (key, rest) =>
      (readValue? steps rest).bind fun (value, rest) =>
        match skipSpace rest with
        | ',' :: rest =>
          (readFields? steps rest).map fun (fields, rest) => ((key, value) :: fields, rest)
        | '}' :: rest => some ([(key, value)], rest)
        | _ => none

end

/-- Reads a text that holds one value and nothing else but space. -/
def read? (t : Text) : Option Node :=
  match readValue? (t.length + 1) t with
  | some (node, rest) => if (skipSpace rest).isEmpty then some node else none
  | none => none

section Strings

variable {c : Char} {rest : Text}

theorem unescape?_of_shortEscape? {e : Char} (short : shortEscape? c = some e) :
    unescape? e = some c ∧ e ≠ 'u' := by
  unfold shortEscape? at short
  split at short <;> cases short <;> decide

theorem coded?_hexByte {n : Nat} (control : n < 0x20) :
    coded? '0' '0' (n / 16 % 16).digitChar (n % 16).digitChar = some (Char.ofNat n) := by
  have all : ∀ n < 0x20, coded? '0' '0' (n / 16 % 16).digitChar (n % 16).digitChar =
      some (Char.ofNat n) := by decide
  exact all n control

theorem readString?_quote (rest : Text) : readString? ('"' :: rest) = some ([], rest) := by
  rw [readString?.eq_def]
  rfl

theorem readString?_plain (plain : c ≠ '"' ∧ c ≠ '\\') (printed : ¬c.toNat < 0x20) :
    readString? (c :: rest) = (readString? rest).map fun (t, rest) => (c :: t, rest) := by
  rw [readString?.eq_def]
  simp [plain, printed]

theorem readString?_short {e : Char} (meaning : unescape? e = some c) (other : e ≠ 'u') :
    readString? ('\\' :: e :: rest) = (readString? rest).map fun (t, rest) => (c :: t, rest) := by
  rw [readString?.eq_3 _ _ _ fun _ _ _ _ _ same => absurd same other, meaning]
  cases readString? rest <;> rfl

theorem readString?_code {x y z w : Char} (code : coded? x y z w = some c) :
    readString? ('\\' :: 'u' :: x :: y :: z :: w :: rest) =
      (readString? rest).map fun (t, rest) => (c :: t, rest) := by
  rw [readString?, code]
  cases readString? rest <;> rfl

/-- What stands for a character is read as it. -/
theorem readString?_stringChar (c : Char) (rest : Text) :
    readString? (stringChar c ++ rest) =
      (readString? rest).map fun (t, rest) => (c :: t, rest) := by
  unfold stringChar
  cases short : shortEscape? c with
  | some e =>
    obtain ⟨meaning, other⟩ := unescape?_of_shortEscape? short
    exact readString?_short meaning other
  | none =>
    have plain : c ≠ '"' ∧ c ≠ '\\' := by
      constructor <;> rintro rfl <;> cases short
    by_cases control : c.toNat < 0x20
    · have code := coded?_hexByte control
      rw [Char.ofNat_toNat] at code
      simp only [control, if_true]
      exact readString?_code code
    · simp only [control, if_false]
      exact readString?_plain plain control

theorem readString?_flatMap (t rest : Text) :
    readString? (t.flatMap stringChar ++ '"' :: rest) = some (t, rest) := by
  induction t with
  | nil => exact readString?_quote rest
  | cons c t ih =>
    rw [List.flatMap_cons, List.append_assoc, readString?_stringChar, ih, Option.map_some]

end Strings

section Numbers

variable {n : Numeral}

theorem isDigits_of_allDigits {t : Text} (digits : AllDigits t) (nonempty : t ≠ []) :
    isDigits t = true := by
  have all : t.all Char.isDigit = true := List.all_eq_true.2 digits
  cases t with
  | nil => exact (nonempty rfl).elim
  | cons c t => rw [isDigits, all]; rfl

theorem isExponent_exponentText (n : Numeral) : isExponent n.exponentText = true := by
  unfold Numeral.exponentText
  cases n.exponent with
  | none => rfl
  | some k =>
    have digits := isDigits_of_allDigits (allDigits_writeNat k.natAbs) (writeNat_ne_nil _)
    by_cases negative : k < 0 <;> simp [negative, isExponent, digits]

theorem unsigned_text (h : n.Proper) (negative : Bool) :
    unsigned ((if negative then ['-'] else []) ++ n.text) = n.text := by
  cases negative with
  | true => rfl
  | false =>
    obtain ⟨c, t, text, digit⟩ := h.text_eq_cons
    unfold unsigned
    split
    · next same =>
      obtain rfl : c = '-' := (List.cons.inj (text.symm.trans same)).1
      cases digit
    · rfl

/-- A numeral has the form of a number, with or without a minus sign. -/
theorem isNumber_text (h : n.Proper) (negative : Bool) :
    isNumber ((if negative then ['-'] else []) ++ n.text) = true := by
  obtain ⟨front, behind⟩ := span_class h.whole n.rest_stops
  have leading : n.whole = ['0'] ∨ n.whole.head? ≠ some '0' := by
    by_cases zero : n.whole.head? = some '0'
    · exact Or.inl (h.leading zero)
    · exact Or.inr zero
  have point : n.rest.head? ≠ some '.' ∨ isDigits n.fraction = true := by
    unfold Numeral.rest
    split
    · exact Or.inl n.exponentText_head?
    · next several => exact Or.inr (isDigits_of_allDigits h.fraction several)
  rw [isNumber, unsigned_text h]
  unfold Numeral.text
  rw [front, behind, Numeral.splitFraction_rest h.fraction]
  simpa [isDigits_of_allDigits h.whole h.nonempty, isExponent_exponentText] using ⟨leading, point⟩

theorem isWordChar_of_isDigit {c : Char} (digit : c.isDigit) : isWordChar c = true := by
  simp [isWordChar, Char.isAlphanum, digit]

theorem isWordChar_of_mem_exponentText {c : Char} (member : c ∈ n.exponentText) :
    isWordChar c = true := by
  unfold Numeral.exponentText at member
  split at member
  · cases member
  · rcases List.mem_cons.1 member with rfl | member
    · rfl
    rcases List.mem_cons.1 member with rfl | member
    · split <;> rfl
    · exact isWordChar_of_isDigit (allDigits_writeNat _ c member)

theorem isWordChar_of_mem_rest (h : n.Proper) {c : Char} (member : c ∈ n.rest) :
    isWordChar c = true := by
  unfold Numeral.rest at member
  split at member
  · exact isWordChar_of_mem_exponentText member
  · rcases List.mem_cons.1 member with rfl | member
    · rfl
    rcases List.mem_append.1 member with digit | power
    · exact isWordChar_of_isDigit (h.fraction c digit)
    · exact isWordChar_of_mem_exponentText power

theorem isWordChar_of_mem_text (h : n.Proper) {negative : Bool} {c : Char}
    (member : c ∈ (if negative then ['-'] else []) ++ n.text) : isWordChar c = true := by
  rcases List.mem_append.1 member with sign | member
  · cases negative with
    | true =>
      rw [List.mem_singleton.1 sign]
      rfl
    | false => cases sign
  · rcases List.mem_append.1 member with digit | behind
    · exact isWordChar_of_isDigit (h.whole c digit)
    · exact isWordChar_of_mem_rest h behind

theorem wordNode?_number {t : Text} (number : isNumber t = true) :
    wordNode? t = some (.number t) := by
  have other : ∀ word : String, isNumber word.toList = false → t ≠ word.toList := by
    rintro word refused rfl
    rw [refused] at number
    cases number
  rw [wordNode?, if_neg (other _ (by decide)), if_neg (other _ (by decide)),
    if_neg (other _ (by decide)), if_pos number]

end Numbers

/-- The text does not go on with the word in front of it. -/
def Ends (rest : Text) : Prop := ∀ c ∈ rest.head?, isWordChar c = false

section Values

variable {c : Char} {t word rest : Text} {steps : Nat}

theorem skipSpace_cons (solid : isSpace c = false) : skipSpace (c :: t) = c :: t :=
  List.dropWhile_cons_of_neg (by simp [solid])

theorem skipSpace_newLine (level : Nat) (t : Text) :
    skipSpace (newLine level ++ t) = skipSpace t := by
  have space : ∀ c ∈ newLine level, isSpace c = true := by
    intro c member
    rcases List.mem_cons.1 member with rfl | member
    · rfl
    · rw [List.eq_of_mem_replicate member]
      rfl
  exact List.dropWhile_append_of_pos space

/-- A value is read without the space in front of it. -/
theorem readValue?_congr {t' : Text} (same : skipSpace t = skipSpace t') :
    readValue? steps t = readValue? steps t' := by
  cases steps with
  | zero => rfl
  | succ steps => rw [readValue?, readValue?, same]

theorem readValue?_space (t : Text) : readValue? steps (' ' :: t) = readValue? steps t :=
  readValue?_congr (List.dropWhile_cons_of_pos rfl)

/-- The characters of a word begin nothing else. -/
theorem isWordChar_front (h : isWordChar c = true) :
    isSpace c = false ∧ c ≠ '"' ∧ c ≠ '[' ∧ c ≠ '{' ∧ c ≠ ']' := by
  refine ⟨?_, ?_, ?_, ?_, ?_⟩
  · rw [Bool.eq_false_iff]
    intro space
    simp only [isSpace, Bool.or_eq_true, beq_iff_eq] at space
    rcases space with ((rfl | rfl) | rfl) | rfl <;> cases h
  all_goals
    rintro rfl
    cases h

theorem readValue?_word {node : Node} (chars : ∀ c ∈ word, isWordChar c = true)
    (nonempty : word ≠ []) (ends : Ends rest) (means : wordNode? word = some node) :
    readValue? (steps + 1) (word ++ rest) = some (node, rest) := by
  cases word with
  | nil => exact (nonempty rfl).elim
  | cons c t =>
    obtain ⟨solid, quote, bracket, brace, -⟩ := isWordChar_front (chars c List.mem_cons_self)
    obtain ⟨front, behind⟩ := span_class chars ends
    rw [List.cons_append] at front behind ⊢
    rw [readValue?, skipSpace_cons solid]
    dsimp only
    rw [if_neg quote, if_neg bracket, if_neg brace, front, behind, means]
    rfl

end Values

section Steps

variable {t t' u v w rest : Text} {item value : Node} {key : Text} {steps : Nat}

theorem readValue?_array {items : List Node} (full : (skipSpace u).head? ≠ some ']')
    (inside : readItems? steps u = some (items, v)) :
    readValue? (steps + 1) ('[' :: u) = some (.array items, v) := by
  rw [readValue?, skipSpace_cons (by decide)]
  dsimp only
  rw [if_neg (by decide), if_pos rfl]
  split
  · next closed => exact (full (by rw [closed]; rfl)).elim
  · rw [inside, Option.map_some]

theorem readValue?_object {fields : List (Text × Node)} (full : (skipSpace u).head? ≠ some '\x7d')
    (inside : readFields? steps u = some (fields, v)) :
    readValue? (steps + 1) ('\x7b' :: u) = some (.object fields, v) := by
  rw [readValue?, skipSpace_cons (by decide)]
  dsimp only
  rw [if_neg (by decide), if_neg (by decide), if_pos rfl]
  split
  · next closed => exact (full (by rw [closed]; rfl)).elim
  · rw [inside, Option.map_some]

theorem readItems?_last (first : readValue? steps t = some (item, u))
    (closing : skipSpace u = ']' :: v) : readItems? (steps + 1) t = some ([item], v) := by
  rw [readItems?, first, Option.bind_some]
  dsimp only
  rw [closing]
  rfl

theorem readItems?_more {items : List Node} (first : readValue? steps t = some (item, u))
    (comma : skipSpace u = ',' :: v) (further : readItems? steps v = some (items, w)) :
    readItems? (steps + 1) t = some (item :: items, w) := by
  rw [readItems?, first, Option.bind_some]
  dsimp only
  rw [comma]
  exact congrArg (Option.map fun (items, rest) => (item :: items, rest)) further

theorem readKey?_eq (quote : skipSpace t = '"' :: u) (read : readString? u = some (key, v))
    (colon : skipSpace v = ':' :: w) : readKey? t = some (key, w) := by
  rw [readKey?, quote]
  change (readString? u).bind _ = _
  rw [read, Option.bind_some]
  dsimp only
  rw [colon]
  rfl

theorem readFields?_last (name : readKey? t = some (key, u))
    (first : readValue? steps u = some (value, v)) (closing : skipSpace v = '\x7d' :: w) :
    readFields? (steps + 1) t = some ([(key, value)], w) := by
  rw [readFields?, name, Option.bind_some]
  dsimp only
  rw [first, Option.bind_some]
  dsimp only
  rw [closing]
  rfl

theorem readFields?_more {fields : List (Text × Node)} (name : readKey? t = some (key, u))
    (first : readValue? steps u = some (value, v)) (comma : skipSpace v = ',' :: w)
    (further : readFields? steps w = some (fields, rest)) :
    readFields? (steps + 1) t = some ((key, value) :: fields, rest) := by
  rw [readFields?, name, Option.bind_some]
  dsimp only
  rw [first, Option.bind_some]
  dsimp only
  rw [comma]
  exact congrArg (Option.map fun (fields, rest) => ((key, value) :: fields, rest)) further

end Steps

/-- The reader takes any layout, and what is not JSON it refuses. -/
example :
    (∀ t ∈ ["[1, -0.5e3,\t\"\\/\\u00e9\"]", "\x7b \"a\" :null\x7d\n", "0"],
      (read? t.toList).isSome) ∧
    ∀ t ∈ ["[1,]", "01", "1.", "-", "nul", "\"\n\"", "\"\\x\"", "1 2", ""],
      (read? t.toList).isNone := by
  decide +kernel

end LineTree.Json
