/-!
# Blank characters and trimming

The blanks are the characters with the white-space property: twenty-five code
points. Trimming works on lists of characters.
-/

namespace MiniC.Text

/-- The code points with the white-space property, as ranges. -/
def blankRanges : List (Nat × Nat) :=
  [(0x9, 0xD), (0x20, 0x20), (0x85, 0x85), (0xA0, 0xA0), (0x1680, 0x1680), (0x2000, 0x200A),
   (0x2028, 0x2029), (0x202F, 0x202F), (0x205F, 0x205F), (0x3000, 0x3000)]

/-- Whether one of some ranges holds a code point. -/
def inRanges (ranges : List (Nat × Nat)) (c : Char) : Bool :=
  ranges.any fun (first, last) => first ≤ c.toNat && c.toNat ≤ last

/-- A blank character. -/
def isBlank (c : Char) : Bool := inRanges blankRanges c

/-- Drops from the end what satisfies a predicate. -/
def dropEnd (p : Char → Bool) (cs : List Char) : List Char := (cs.reverse.dropWhile p).reverse

/-- Drops blanks at both ends. -/
def trim (cs : List Char) : List Char := dropEnd isBlank (cs.dropWhile isBlank)

end MiniC.Text
