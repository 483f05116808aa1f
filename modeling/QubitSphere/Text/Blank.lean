/-
# Blank text

The Unicode property `White_Space`, and texts made of such characters alone.  The no-break space
and the ideographic space are blank; the zero width space is not.
-/

import QubitSphere.Text.Ranges

namespace QubitSphere
namespace Text

/-- The code points with the property `White_Space`. -/
def whiteSpaceRanges : List (Nat × Nat) :=
  [(0x9, 0xD), (0x20, 0x20), (0x85, 0x85), (0xA0, 0xA0), (0x1680, 0x1680), (0x2000, 0x200A),
   (0x2028, 0x2029), (0x202F, 0x202F), (0x205F, 0x205F), (0x3000, 0x3000)]

/-- Whether a character has the Unicode property `White_Space`. -/
def isWhiteSpace (c : Char) : Bool :=
  inRanges whiteSpaceRanges c.toNat

/-- Whether a text has nothing but white space in it; the empty text is blank. -/
def isBlank (text : String) : Bool :=
  text.toList.all isWhiteSpace

end Text
end QubitSphere
