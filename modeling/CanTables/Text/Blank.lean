/-!
# CanTables.Text.Blank — blank characters and trimming

Blank means the Unicode property White_Space: twenty-five characters, of which ASCII has six.
Names, identifiers and database fields may be surrounded by any of them.
-/

namespace CanTables.Text

/-- The characters with the White_Space property, as ranges of code points. -/
def blankRanges : List (Nat × Nat) :=
  [(0x09, 0x0D), (0x20, 0x20), (0x85, 0x85), (0xA0, 0xA0), (0x1680, 0x1680), (0x2000, 0x200A),
    (0x2028, 0x2029), (0x202F, 0x202F), (0x205F, 0x205F), (0x3000, 0x3000)]

/-- A character with the White_Space property. -/
def isBlank (c : Char) : Bool :=
  blankRanges.any fun (first, last) => first ≤ c.toNat && c.toNat ≤ last

/-- The text without the blanks it starts and ends with. -/
def trim (cs : List Char) : List Char :=
  ((cs.dropWhile isBlank).reverse.dropWhile isBlank).reverse

/-- The property has twenty-five characters. -/
example : blankRanges.foldr (fun (first, last) count => last + 1 - first + count) 0 = 25 := by
  decide

end CanTables.Text
