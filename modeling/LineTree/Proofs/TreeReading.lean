import LineTree.Proofs.JsonReading
import LineTree.Proofs.Shown

/-!
# Trees are read back from JSON

A reader of token trees from what a JSON text says: the fields of an object may have any order, a
missing list of children is an empty one, and a missing value is none. It gives back the trees that
were written, with the values of their literals: whole numbers are in the range of the reader, and a
number that is not finite is infinity, which is written as null. Main statements:
`Token.decoded?_expressible`, `Json.Node.token?_toJson`, `Output.tokens_json_faithful`.
-/
namespace LineTree

namespace Value

/-- A value that JSON can express: an integer in the range of the reader, a finite number, or the
infinity that null stands for. -/
def Expressible : Value → Prop
  | integer n => -Int.ofNat (twoTo 63) ≤ n ∧ n < Int.ofNat (twoTo 63)
  | float x => x = .infinity false ∨ ∃ m e, x.size = .finite m e
  | string _ => True

end Value

namespace Json.Node

/-- The number that the text of a number is the digits of. -/
def natural? : Node → Option Nat
  | number t => readNat? t
  | _ => none

def text? : Node → Option Text
  | string t => some t
  | _ => none

/-- The value under the name of its type. Of the numbers only infinity is written as null. -/
def value? : Node → Option Value
  | object [(type, payload)] =>
    match payload with
    | number t =>
      if type = "integer".toList then (readInteger? t).map .integer
      else if type = "float".toList then (readFloat? t).map .float
      else none
    | null => if type = "float".toList then some (.float (.infinity false)) else none
    | string t => if type = "string".toList then some (.string t) else none
    | _ => none
  | _ => none

/-- A missing value is none. -/
def valueIn? (fields : List (Text × Node)) : Option (Option Value) :=
  match fields.lookup "value".toList with
  | some node => node.value?.map some
  | none => some none

def kindIn? (fields : List (Text × Node)) : Option Kind :=
  ((fields.lookup "kind".toList).bind text?).bind fun name => Kind.ofName? (String.ofList name)

mutual

/-- Reads a token from an object, whatever the order of the fields. -/
def token? : Node → Option Token
  | object fields => do
    let line ← (fields.lookup "line".toList).bind natural?
    let start ← (fields.lookup "start".toList).bind natural?
    let literal ← (fields.lookup "literal".toList).bind text?
    let kind ← kindIn? fields
    let children ← childrenIn? fields
    let value ← valueIn? fields
    some { line, start, literal, kind, children, value }
  | _ => none

def tokens? : List Node → Option (List Token)
  | [] => some []
  | node :: rest => do
    let t ← token? node
    let rest ← tokens? rest
    some (t :: rest)

/-- The first list of children. Without one there are none. -/
def childrenIn? : List (Text × Node) → Option (List Token)
  | [] => some []
  | (key, node) :: rest =>
    if key = "children".toList then
      match node with
      | array items => tokens? items
      | _ => none
    else childrenIn? rest

end

theorem value?_toJson {v : Value} (h : v.Expressible) : v.toJson.node.value? = some v := by
  cases v with
  | integer n =>
    have read := readInteger?_writeInteger h.1 h.2
    have payload : (Value.integer n).toJson.node =
        .object [("integer".toList, .number (writeInteger n))] := by
      simp [Value.toJson, node, fieldNodes]
    rw [payload, value?, if_pos rfl, read, Option.map_some]
  | float x =>
    rcases h with rfl | ⟨m, e, finite⟩
    · have payload : (Value.float (.infinity false)).toJson.node =
          .object [("float".toList, .null)] := by
        have size : (Binary64.infinity false).size = .infinite := by decide
        simp [Value.toJson, node, fieldNodes, size]
      rw [payload, value?, if_pos rfl]
    · have payload : (Value.float x).toJson.node =
          .object [("float".toList, .number (floatStyle.write x))] := by
        simp [Value.toJson, node, fieldNodes, finite]
      rw [payload, value?, if_neg (by decide), if_pos rfl, floatStyle.readFloat?_write finite,
        Option.map_some]
  | string t =>
    have payload : (Value.string t).toJson.node = .object [("string".toList, .string t)] := by
      simp [Value.toJson, node, fieldNodes]
    rw [payload, value?, if_pos rfl]

/-- The fields that every token has, in front of the other ones. -/
def tokenFields (line start : Nat) (literal : Text) (kind : Kind) (rest : List (Text × Node)) :
    List (Text × Node) :=
  ("line".toList, .number (writeNat line)) :: ("start".toList, .number (writeNat start)) ::
    ("literal".toList, .string literal) :: ("kind".toList, .string kind.name.toList) :: rest

theorem token?_tokenFields {line start : Nat} {literal : Text} {kind : Kind}
    {rest : List (Text × Node)} {children : List Token} {value : Option Value}
    (inside : childrenIn? rest = some children) (own : valueIn? rest = some value) :
    token? (.object (tokenFields line start literal kind rest)) =
      some { line, start, literal, kind, children, value } := by
  generalize hfields : tokenFields line start literal kind rest = fields
  have first : fields.lookup "line".toList = some (.number (writeNat line)) := hfields ▸ rfl
  have second : fields.lookup "start".toList = some (.number (writeNat start)) := hfields ▸ rfl
  have third : fields.lookup "literal".toList = some (.string literal) := hfields ▸ rfl
  have fourth : fields.lookup "kind".toList = some (.string kind.name.toList) := hfields ▸ rfl
  have kinds : kindIn? fields = some kind := by
    rw [kindIn?, fourth, Option.bind_some, text?, Option.bind_some, String.ofList_toList]
    exact Kind.ofName?_eq_some_iff.2 rfl
  have children : childrenIn? fields = some children := by
    rw [← hfields, ← inside]
    rfl
  have value : valueIn? fields = some value := by
    rw [← hfields, ← own]
    rfl
  rw [token?, first, second, third, kinds, children, value]
  simp [natural?, text?, readNat?_writeNat]

theorem length_nodes (l : List Json) : (nodes l).length = l.length := by
  induction l with
  | nil => rfl
  | cons j l ih => rw [nodes, List.length_cons, List.length_cons, ih]

theorem tokens?_toJson {l : List Token} (each : ∀ t ∈ l, token? t.toJson.node = some t) :
    tokens? (nodes (l.map Token.toJson)) = some l := by
  induction l with
  | nil => rfl
  | cons t l ih =>
    rw [List.forall_mem_cons] at each
    rw [List.map_cons, nodes, tokens?, each.1, ih each.2]
    rfl

/-- The fields that a token may have. -/
def optionalFields (children : List Token) (value : Option Value) : List (Text × Node) :=
  (if children.isEmpty then []
    else [("children".toList, .array (nodes (children.map Token.toJson)))]) ++
    match value with
    | some v => [("value".toList, v.toJson.node)]
    | none => []

theorem node_toJson (line start : Nat) (literal : Text) (kind : Kind) (children : List Token)
    (value : Option Value) :
    (Token.mk line start literal kind children value).toJson.node =
      .object (tokenFields line start literal kind (optionalFields children value)) := by
  cases children <;> cases value <;>
    simp [Token.toJson, Token.toJsonAll_eq_map, optionalFields, tokenFields, fieldNodes, nodes, node,
      writeInteger]

/-- A list of trees is written as a list of objects. -/
theorem exists_object_of_mem_nodes {l : List Token} {item : Node}
    (member : item ∈ nodes (l.map Token.toJson)) : ∃ fields, item = .object fields := by
  induction l with
  | nil => cases member
  | cons t l ih =>
    rw [List.map_cons, nodes, List.mem_cons] at member
    rcases member with rfl | further
    · cases t
      exact ⟨_, node_toJson ..⟩
    · exact ih further

theorem childrenIn?_optionalFields {children : List Token} (value : Option Value)
    (each : ∀ t ∈ children, token? t.toJson.node = some t) :
    childrenIn? (optionalFields children value) = some children := by
  cases children with
  | nil => cases value <;> rfl
  | cons c children =>
    have inside := tokens?_toJson each
    rw [← inside]
    rfl

theorem valueIn?_optionalFields {value : Option Value} (children : List Token)
    (own : ∀ v ∈ value, v.Expressible) :
    valueIn? (optionalFields children value) = some value := by
  have skipped : (optionalFields children value).lookup "value".toList =
      value.map fun v => v.toJson.node := by
    cases children <;> cases value <;> rfl
  rw [valueIn?, skipped]
  cases value with
  | none => rfl
  | some v =>
    rw [Option.map_some]
    dsimp only
    rw [value?_toJson (own v rfl), Option.map_some]

/-- A tree whose values JSON can express is read back. -/
theorem token?_toJson {t : Token} (h : ∀ u ∈ t.listing, ∀ v ∈ u.value, v.Expressible) :
    token? t.toJson.node = some t := by
  induction t using Token.induction with
  | node line start literal kind children value ih =>
    have each : ∀ c ∈ children, token? c.toJson.node = some c := fun c child =>
      ih c child fun u inside => h u (Token.mem_listing_iff.2 (Or.inr ⟨c, child, inside⟩))
    rw [node_toJson]
    exact token?_tokenFields (childrenIn?_optionalFields value each)
      (valueIn?_optionalFields children (h _ (Token.self_mem_listing _)))

end Json.Node

namespace Binary64

theorem ofMagnitude_expressible (magnitude : Nat) :
    (Value.float (ofMagnitude false magnitude)).Expressible := by
  unfold ofMagnitude
  split
  · next small =>
    have field : magnitude / twoTo 52 ≠ 0x7FF := by
      have below : magnitude / twoTo 52 < 0x7FF := by
        rw [Nat.div_lt_iff_lt_mul (by decide)]
        exact small
      exact below.ne
    refine Or.inr ?_
    rw [size]
    dsimp only
    rw [if_neg field]
    split
    · exact ⟨_, _, rfl⟩
    · exact ⟨_, _, rfl⟩
  · exact Or.inl rfl

/-- A decimal number without a sign is read as a finite number or as infinity. -/
theorem ofDecimal_expressible (digits : Nat) (place : Int) :
    (Value.float (ofDecimal false digits place)).Expressible := by
  unfold ofDecimal
  dsimp only
  split
  · exact ofMagnitude_expressible 0
  · split
    · exact Or.inl rfl
    · exact ofMagnitude_expressible _

end Binary64

theorem readDecimal?_expressible {t : Text} {x : Binary64} (read : readDecimal? false t = some x) :
    (Value.float x).Expressible := by
  rw [readDecimal?_eq] at read
  dsimp only at read
  split at read
  · obtain rfl := Option.some.inj read
    exact Binary64.ofDecimal_expressible _ _
  · cases read

theorem readInteger?_expressible {t : Text} {n : Int} (read : readInteger? t = some n) :
    (Value.integer n).Expressible := by
  unfold readInteger? at read
  rw [Option.filter_eq_some_iff, Bool.and_eq_true, decide_eq_true_eq, decide_eq_true_eq] at read
  exact read.2

namespace Token

/-- A unit is told apart from the digits in front of it. -/
theorem splitUnit_append {digits unit : Text} (chars : ∀ c ∈ digits, isNumberChar c)
    (ending : unit = [] ∨ ∃ u, isUnitSuffix u ∧ unit = [u]) :
    splitUnit (digits ++ unit) = (digits, decide (unit ≠ [])) := by
  rcases ending with rfl | ⟨u, suffix, rfl⟩
  · rw [List.append_nil, splitUnit]
    cases last : digits.getLast? with
    | none => rfl
    | some c =>
      have plain : isUnitSuffix c = false := by
        rw [Bool.eq_false_iff]
        intro suffix
        have other := Kind.not_isNumberChar_of_isUnitSuffix suffix
        rw [chars c (List.mem_of_getLast? last)] at other
        cases other
      simp [plain]
  · simp [splitUnit, suffix]

/-- The digits of a number begin with a digit. -/
theorem splitUnit_digit {t : Text} (h : Kind.number.Spells t) :
    ∃ c rest, (splitUnit t).1 = c :: rest ∧ c.isDigit := by
  obtain ⟨digits, unit, rfl, ⟨c, head, digit⟩, chars, ending⟩ := h.number_parts
  obtain ⟨rest, rfl⟩ := List.head?_eq_some_iff.1 head
  exact ⟨c, rest, congrArg Prod.fst (splitUnit_append chars ending), digit⟩

/-- The values of the literals that the grammar allows can be expressed. -/
theorem decoded?_expressible {t : Token}
    (spelled : t.kind = .number → Kind.number.Spells t.literal) :
    ∀ v ∈ t.decoded?, v.Expressible := by
  intro v decoded
  rw [decoded?] at decoded
  split at decoded
  · next number =>
    obtain ⟨c, rest, front, digit⟩ := splitUnit_digit (spelled number)
    rw [decodeNumber?] at decoded
    generalize splitUnit t.literal = parts at front decoded
    obtain ⟨digits, suffixed⟩ := parts
    obtain rfl : digits = c :: rest := front
    dsimp only at decoded
    split at decoded
    · obtain ⟨x, read, rfl⟩ := Option.map_eq_some_iff.1 decoded
      exact readDecimal?_expressible ((Numeral.readFloat?_digit digit false).symm.trans read)
    · obtain ⟨n, read, rfl⟩ := Option.map_eq_some_iff.1 decoded
      exact readInteger?_expressible read
  · obtain rfl := Option.some.inj decoded
    trivial
  · cases decoded

/-- JSON can express the values that are shown for a line. -/
theorem shown_expressible {line : Nat} {text : Text} {stripWhitespace values : Bool} :
    ∀ u ∈ ((ofLine line text).shown stripWhitespace values).listing,
      ∀ v ∈ u.value, v.Expressible := by
  have spelled : ∀ u ∈ (ofLine line text).listing,
      u.kind = .number → Kind.number.Spells u.literal := fun u member number =>
    number ▸ (ScannedLine.conforms member).form.spelled (number ▸ rfl)
  intro u member v own
  rw [value_shown u member] at own
  cases values with
  | false => cases own
  | true =>
    have carried : u.kind = .number → Kind.number.Spells u.literal :=
      forall_listing_shown (Q := fun u => u.kind = .number → Kind.number.Spells u.literal)
        (fun _ _ kept => kept) spelled u member
    exact decoded?_expressible carried v own

end Token

namespace Output

/-- The JSON text of a source is an array with an object for each line, in order, and a newline
behind it. The trees that it was written from can be read back, with the values that their literals
have. -/
theorem tokens_json_faithful (settings : Settings) (source : Text) (stripWhitespace values : Bool) :
    let d := Document.ofText settings source
    let trees := d.shownTrees stripWhitespace values
    (∃ text items, wholeText (tokens d true stripWhitespace values).pieces = text ++ ['\n'] ∧
      Json.read? text = some (.array items) ∧
      items.length = (Text.lines source).length ∧
      (∀ item ∈ items, ∃ fields, item = .object fields) ∧
      Json.Node.tokens? items = some trees) ∧
    (∀ i piece, (Text.lines source)[i]? = some piece →
      trees[i]? = some ((Token.ofLine i piece).shown stripWhitespace values)) ∧
    ∀ t ∈ trees, ∀ u ∈ t.descendants, u.value = if values then u.decoded? else none := by
  intro d trees
  have written : ∀ t ∈ trees, ∃ line piece,
      t = (Token.ofLine line piece).shown stripWhitespace values := fun t =>
    Document.exists_line_of_mem_shownTrees
  refine ⟨⟨(Json.array (trees.map Token.toJson)).render, Json.nodes (trees.map Token.toJson),
    wholeText_tokens_json d stripWhitespace values, Json.read?_render _, ?_, fun item =>
      Json.Node.exists_object_of_mem_nodes, ?_⟩, fun i piece found => ?_, ?_⟩
  · rw [Json.Node.length_nodes, List.length_map]
    exact Document.length_shownTrees settings source stripWhitespace values
  · refine Json.Node.tokens?_toJson fun t member => Json.Node.token?_toJson ?_
    obtain ⟨line, piece, rfl⟩ := written t member
    exact Token.shown_expressible
  · exact Document.getElem?_shownTrees settings found stripWhitespace values
  · intro t member u below
    obtain ⟨line, piece, rfl⟩ := written t member
    exact Token.value_shown u (Token.mem_descendants_iff.1 below)

end Output
end LineTree
