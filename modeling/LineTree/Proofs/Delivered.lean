import LineTree.Proofs.Shown

/-!
# Output cut short

A limited sink takes the front of an output, and what fails is the first byte that it has no room
for. Into which pieces the output is cut does not matter. So a command ends with its own status
exactly if all of its output has been taken, and otherwise with a failure, which is one of writing
JSON if it comes in front of the end of the JSON. Main statements: `deliver_eq`, `failed_deliver`,
`Command.deliverWithin_output`.
-/
namespace LineTree

/-- The bytes of the text, each as part of output of the form. -/
def Text.formed (t : Text) (f : Form) : List (UInt8 × Form) := t.toBytes.map fun byte => (byte, f)

/-- The bytes of the pieces in order, each with the form of its piece. -/
def formedBytes (pieces : List Piece) : List (UInt8 × Form) :=
  pieces.flatMap fun piece => piece.text.formed piece.form

namespace Text

theorem toBytes_append (a b : Text) : (a ++ b).toBytes = a.toBytes ++ b.toBytes :=
  List.flatMap_append

theorem formed_append (a b : Text) (f : Form) : (a ++ b).formed f = a.formed f ++ b.formed f := by
  rw [formed, toBytes_append, List.map_append, ← formed, ← formed]

theorem length_formed (t : Text) (f : Form) : (t.formed f).length = byteLength t := by
  rw [formed, List.length_map, length_toBytes]

theorem map_fst_formed (t : Text) (f : Form) : (t.formed f).map Prod.fst = t.toBytes := by
  simp [formed, Function.comp_def]

theorem snd_getElem?_formed (t : Text) (f : Form) (i : Nat) :
    (t.formed f)[i]?.map Prod.snd = if i < byteLength t then some f else none := by
  split
  · next inside =>
    rw [← length_formed t f] at inside
    rw [List.getElem?_eq_getElem inside, Option.map_some]
    simp [formed]
  · next outside =>
    rw [← length_formed t f] at outside
    rw [List.getElem?_eq_none (by omega), Option.map_none]

end Text

theorem formedBytes_cons (piece : Piece) (rest : List Piece) :
    formedBytes (piece :: rest) = piece.text.formed piece.form ++ formedBytes rest := rfl

theorem map_fst_formedBytes (pieces : List Piece) :
    (formedBytes pieces).map Prod.fst = (wholeText pieces).toBytes := by
  induction pieces with
  | nil => rfl
  | cons piece rest ih =>
    have whole : wholeText (piece :: rest) = piece.text ++ wholeText rest := rfl
    rw [formedBytes_cons, List.map_append, ih, Text.map_fst_formed, whole, Text.toBytes_append]

theorem formedBytes_of_form {f : Form} {pieces : List Piece} (same : ∀ p ∈ pieces, p.form = f) :
    formedBytes pieces = (wholeText pieces).formed f := by
  induction pieces with
  | nil => rfl
  | cons piece rest ih =>
    have own : piece.form = f := same piece (by simp)
    have whole : wholeText (piece :: rest) = piece.text ++ wholeText rest := rfl
    rw [formedBytes_cons, ih fun p member => same p (by simp [member]), own, whole,
      Text.formed_append]

/-- A sink takes the bytes that it has room for, and the next one fails. -/
theorem deliver_eq (room : Nat) (pieces : List Piece) : deliver room pieces =
    ⟨(wholeText pieces).toBytes.take room, (formedBytes pieces)[room]?.map Prod.snd⟩ := by
  rw [← map_fst_formedBytes]
  induction pieces generalizing room with
  | nil => simp [deliver, formedBytes]
  | cons piece rest ih =>
    have size : (piece.text.formed piece.form).length = piece.text.toBytes.length := by
      rw [Text.length_formed, Text.length_toBytes]
    rw [formedBytes_cons, List.map_append, Text.map_fst_formed, List.take_append]
    simp only [deliver]
    split
    · next fits =>
      rw [ih, List.take_of_length_le fits, List.getElem?_append_right (by omega), size]
    · next full =>
      have none_left : room - piece.text.toBytes.length = 0 := by omega
      rw [none_left, List.take_zero, List.append_nil, List.getElem?_append_left (by omega),
        Text.snd_getElem?_formed, if_pos (by rw [← Text.length_toBytes]; omega)]

/-- What fails of an output that begins with JSON and goes on in plain text. -/
theorem failed_deliver {pieces : List Piece} {json plain : Text}
    (forms : formedBytes pieces = json.formed .json ++ plain.formed .plain) (room : Nat) :
    (deliver room pieces).failed =
      if (wholeText pieces).toBytes.length ≤ room then none
      else some (if room < Text.byteLength json then .json else .plain) := by
  have size : (wholeText pieces).toBytes.length = Text.byteLength json + Text.byteLength plain := by
    rw [← map_fst_formedBytes, List.length_map, forms, List.length_append, Text.length_formed,
      Text.length_formed]
  rw [deliver_eq, size, forms]
  dsimp only
  by_cases inside : room < Text.byteLength json
  · rw [List.getElem?_append_left (by rwa [Text.length_formed]), Text.snd_getElem?_formed,
      if_pos inside, if_neg (by omega), if_pos inside]
  · rw [List.getElem?_append_right (by rw [Text.length_formed]; omega), Text.length_formed,
      Text.snd_getElem?_formed, if_neg inside]
    by_cases behind : room - Text.byteLength json < Text.byteLength plain
    · rw [if_pos behind, if_neg (by omega)]
    · rw [if_neg behind, if_pos (by omega)]

theorem Output.deliverWithin_eq {o : Output} {json plain : Text}
    (forms : formedBytes o.pieces = json.formed .json ++ plain.formed .plain) (room : Nat)
    (reason : Text) : o.deliverWithin room reason =
      if (wholeText o.pieces).toBytes.length ≤ room then .ok o.status
      else .error (.undelivered (if room < Text.byteLength json then .json else .plain) reason) := by
  rw [deliverWithin, failed_deliver forms]
  by_cases fits : (wholeText o.pieces).toBytes.length ≤ room
  · rw [if_pos fits, if_pos fits]
  · rw [if_neg fits, if_neg fits]

namespace Command

/-- What the command makes of a source under the settings. -/
def output (c : Command) (settings : Settings) (painting : Painting) (source : Text) : Output :=
  let d := Document.ofText settings source
  match c with
  | tokens _ json stripWhitespace values => .tokens d json stripWhitespace values
  | highlight _ noColour => .highlight d (if noColour then .plain else painting)
  | check _ => .check d source

/-- The array of the trees, for a dump in JSON. Other commands write no JSON. -/
def arrayText (c : Command) (settings : Settings) (source : Text) : Text :=
  match c with
  | tokens _ true stripWhitespace values =>
    let trees := (Document.ofText settings source).shownTrees stripWhitespace values
    (Json.array (trees.map Token.toJson)).render
  | _ => []

theorem result_report (i : Invocation) (environment : Environment) (painting : Painting)
    (source : Text) : (i.report environment painting (.ok source)).result =
      .ok (i.command.output (i.settings environment).1 painting source) := by
  unfold Invocation.report output
  cases i.command <;> rfl

/-- The output is the array, if there is one, and plain text behind it. -/
theorem exists_plain (c : Command) (settings : Settings) (painting : Painting) (source : Text) :
    ∃ plain : Text, formedBytes (c.output settings painting source).pieces =
      (c.arrayText settings source).formed .json ++ plain.formed .plain := by
  cases c with
  | tokens file json stripWhitespace values =>
    cases json with
    | true =>
      refine ⟨['\n'], ?_⟩
      simp only [output, arrayText, ← Output.shownTrees_eq]
      rfl
    | false => exact ⟨_, formedBytes_of_form (by simp [output, Output.tokens])⟩
  | highlight file noColour => exact ⟨_, formedBytes_of_form (by simp [output, Output.highlight])⟩
  | check file => exact ⟨_, formedBytes_of_form (by simp [output, Output.check])⟩

/-- A sink with room for so many bytes takes that many of the output of a command. If this is all of
it, the command ends with its status. If not, it fails: in writing JSON if the array is not complete,
and otherwise in writing plain output, to which the newline behind the array belongs. The same is
taken and the same fails if the output comes in other pieces. -/
theorem deliverWithin_output (c : Command) (settings : Settings) (painting : Painting)
    (source : Text) (room : Nat) (reason : Text) :
    let o := c.output settings painting source
    let complete := (wholeText o.pieces).toBytes
    (deliver room o.pieces).accepted = complete.take room ∧
    o.deliverWithin room reason =
      (if complete.length ≤ room then .ok o.status
      else .error (.undelivered
        (if room < Text.byteLength (c.arrayText settings source) then .json else .plain) reason)) ∧
    (∀ fragments, formedBytes fragments = formedBytes o.pieces →
      deliver room fragments = deliver room o.pieces) ∧
    (∀ file stripWhitespace values, c = .tokens file true stripWhitespace values →
      wholeText o.pieces = c.arrayText settings source ++ ['\n']) ∧
    ∀ (i : Invocation) (environment : Environment),
      i.command = c → (i.settings environment).1 = settings →
        (i.report environment painting (.ok source)).result = .ok o := by
  intro o complete
  obtain ⟨plain, forms⟩ := c.exists_plain settings painting source
  refine ⟨by rw [deliver_eq], Output.deliverWithin_eq forms room reason,
    fun fragments same => ?_, ?_, ?_⟩
  · have whole : (wholeText fragments).toBytes = complete := by
      rw [← map_fst_formedBytes, same, map_fst_formedBytes]
    rw [deliver_eq, deliver_eq, same, whole]
  · rintro file stripWhitespace values rfl
    exact Output.wholeText_tokens_json _ stripWhitespace values
  · rintro i environment rfl rfl
    exact result_report i environment painting source

/-- A dump of `a` in JSON that lacks its last byte lacks the newline, and one that lacks two bytes is
no array. -/
theorem deliverWithin_output_newline :
    let c : Command := .tokens none true false false
    let o := c.output {} .plain ['a']
    let size := (wholeText o.pieces).toBytes.length
    o.deliverWithin size [] = .ok 0 ∧
      o.deliverWithin (size - 1) [] = .error (.undelivered .plain []) ∧
      o.deliverWithin (size - 2) [] = .error (.undelivered .json []) := by
  intro c o size
  have law (room : Nat) := (deliverWithin_output c {} .plain ['a'] room []).2.1
  have whole : size = Text.byteLength (c.arrayText {} ['a']) + 1 := by
    have complete := (deliverWithin_output c {} .plain ['a'] 0 []).2.2.2.1 none false false rfl
    rw [← Text.length_toBytes]
    simp only [size, o, complete, Text.toBytes_append, List.length_append]
    rfl
  have array : 0 < Text.byteLength (c.arrayText {} ['a']) := by decide +kernel
  have short (n : Nat) (missing : 0 < n) : ¬size ≤ size - n := by omega
  refine ⟨(law size).trans (if_pos (Nat.le_refl size)), ?_, ?_⟩
  · rw [law, if_neg (short 1 (by omega)), if_neg (by omega)]
  · rw [law, if_neg (short 2 (by omega)), if_pos (by omega)]

end Command
end LineTree
