import Dataflow.Text.Ranges

/-!
# Dataflow.Text.Blank

Blank characters: those with the Unicode property White_Space, which takes in the line break, the
no-break space and the ideographic space but no zero-width character.
-/

namespace Dataflow.Text

/-- The characters with the Unicode property White_Space. -/
def blanks : Ranges :=
  [(0x9, 0xd), (0x20, 0x20), (0x85, 0x85), (0xa0, 0xa0), (0x1680, 0x1680), (0x2000, 0x200a),
   (0x2028, 0x2029), (0x202f, 0x202f), (0x205f, 0x205f), (0x3000, 0x3000)]

/-- Whether `c` is white space. -/
def isBlank (c : Char) : Bool :=
  blanks.has c.toNat

end Dataflow.Text
