import TagQuery.Text.CodePoints

/-!
White space: the characters with the Unicode property `White_Space`. Controls such as U+001C and
invisible characters such as U+200B are not among them.
-/

namespace TagQuery.Text

/-- The ranges of the property `White_Space`. -/
def whiteSpaceRanges : List (Nat × Nat) :=
  [(0x09, 0x0d), (0x20, 0x20), (0x85, 0x85), (0xa0, 0xa0), (0x1680, 0x1680), (0x2000, 0x200a),
    (0x2028, 0x2029), (0x202f, 0x202f), (0x205f, 0x205f), (0x3000, 0x3000)]

def isWhiteSpace (c : Char) : Bool :=
  inRanges c.toNat whiteSpaceRanges

end TagQuery.Text
