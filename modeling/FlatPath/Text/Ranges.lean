/-!
Sets of characters given as ranges of code points, and the set of blanks.
-/

namespace FlatPath.Text

/-- Some range, ends included, holds the code point. -/
def inRanges (ranges : List (Nat × Nat)) (c : Char) : Bool :=
  ranges.any fun (first, last) => first ≤ c.toNat && c.toNat ≤ last

def blanks : List (Nat × Nat) :=
  [(0x9, 0xD), (0x20, 0x20), (0x85, 0x85), (0xA0, 0xA0), (0x1680, 0x1680), (0x2000, 0x200A),
    (0x2028, 0x2029), (0x202F, 0x202F), (0x205F, 0x205F), (0x3000, 0x3000)]

/-- White space in any script. -/
def isBlank (c : Char) : Bool :=
  inRanges blanks c

end FlatPath.Text
