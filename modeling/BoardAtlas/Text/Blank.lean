/-!
# Blank characters

The `White_Space` property of Unicode, and trimming by it.

* `isBlank`: the property;
* `trim`, `trimText`: a text without blanks at its ends.
-/

namespace BoardAtlas.Text

/-- The ranges of the `White_Space` property. -/
def blankRanges : List (Nat × Nat) :=
  [(0x09, 0x0D), (0x20, 0x20), (0x85, 0x85), (0xA0, 0xA0), (0x1680, 0x1680), (0x2000, 0x200A),
    (0x2028, 0x2029), (0x202F, 0x202F), (0x205F, 0x205F), (0x3000, 0x3000)]

/-- The character has the `White_Space` property. -/
def isBlank (c : Char) : Bool := blankRanges.any fun (lo, hi) => lo ≤ c.toNat && c.toNat ≤ hi

/-- The characters without blanks at either end. -/
def trim (cs : List Char) : List Char :=
  ((cs.dropWhile isBlank).reverse.dropWhile isBlank).reverse

/-- The text without blanks at either end. -/
def trimText (s : String) : String := String.ofList (trim s.toList)

end BoardAtlas.Text
