import LineTree.Text.Bytes

/-!
# Delivering output

Output is written in pieces to a sink that may be limited in size. A limited sink takes bytes as long
as it has room; the piece that does not fit fails, after the part of it that did. What has failed
with it depends on the piece.
-/
namespace LineTree

/-- What a piece of output is part of. -/
inductive Form where
  | json
  | plain
  deriving DecidableEq, Repr

structure Piece where
  form : Form
  text : Text
  deriving DecidableEq

/-- The output as one text. -/
def wholeText (pieces : List Piece) : Text := pieces.flatMap (·.text)

/-- What a sink has taken, and the form of the piece that failed. -/
structure Delivery where
  accepted : List UInt8
  failed : Option Form
  deriving DecidableEq

/-- Writes the pieces to a sink with room for so many bytes. -/
def deliver (room : Nat) : List Piece → Delivery
  | [] => ⟨[], none⟩
  | piece :: rest =>
    let bytes := Text.toBytes piece.text
    if bytes.length ≤ room then
      let d := deliver (room - bytes.length) rest
      { d with accepted := bytes ++ d.accepted }
    else ⟨bytes.take room, some piece.form⟩

end LineTree
