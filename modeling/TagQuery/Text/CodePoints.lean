/-!
Sets of characters given as ascending ranges of code points. The tables of this folder are such
lists, of version 17.0 of Unicode; a look-up stops at the first range that begins after the code
point.
-/

namespace TagQuery.Text

/-- Membership in a list of ascending inclusive ranges. -/
def inRanges (code : Nat) : List (Nat × Nat) → Bool
  | [] => false
  | (first, last) :: ranges => first ≤ code && (code ≤ last || inRanges code ranges)

end TagQuery.Text
