import CanTables.Text.Blank
import CanTables.Text.Digits

/-!
# CanTables.Identifier — message, mode and parameter identifiers

An identifier is a 32-bit number written in decimal, or in base sixteen, eight or two behind `0x`,
`0o` or `0b` in either case.  Blanks around it are ignored, one plus sign may stand in front of the
digits, and leading zeros are harmless.

`Identifier.key` is the one canonical spelling under which layers of a message meet.
-/

namespace CanTables.Identifier

open Text

/-- The base that a numeral announces, and the text behind the announcement. -/
def splitBase : List Char → Nat × List Char
  | '0' :: mark :: rest =>
    if mark = 'x' ∨ mark = 'X' then (16, rest)
    else if mark = 'o' ∨ mark = 'O' then (8, rest)
    else if mark = 'b' ∨ mark = 'B' then (2, rest)
    else (10, '0' :: mark :: rest)
  | cs => (10, cs)

/-- The text behind one optional plus sign. -/
def dropPlus : List Char → List Char
  | '+' :: rest => rest
  | cs => cs

/-- The number that a spelling denotes, before its size is checked. -/
def value? (cs : List Char) : Option Nat :=
  let (base, digits) := splitBase (trim cs)
  Digits.read? base (dropPlus digits)

/-- The word of a number that fits 32 bits. -/
def ofNat? (n : Nat) : Option UInt32 :=
  if n < UInt32.size then some (.ofNat n) else none

/-- The identifier that a spelling denotes. -/
def parse? (text : String) : Option UInt32 := (value? text.toList).bind ofNat?

/-- The canonical spelling: lower-case hexadecimal behind `0x`. -/
def key (id : UInt32) : String := "0x" ++ Digits.hex id.toNat

end CanTables.Identifier
