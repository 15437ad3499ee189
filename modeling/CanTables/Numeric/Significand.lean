import CanTables.Numeric.Decimal

/-!
# CanTables.Numeric.Significand — numerals read as a word times a power of ten

The numbers of the configuration files are not rounded once.  The digits of a numeral are gathered
in a word of 64 bits, its significand, as far as they fit.  The double nearest to that word is then
multiplied with, or divided by, the double nearest to the power of ten that is left, and powers
beyond the greatest one that a double holds are divided by in several steps.

Each of these steps rounds.  A numeral of few digits with a small exponent is read as the number
nearest to it; other numerals may be read as a neighbour of that number, and the greatest numbers
are refused when they are written with all their digits, since the product is infinite.
-/

namespace CanTables.Numeric

open Text

/-! ## Gathering digits -/

/-- Puts digits behind those of a word as long as the word holds them, and gives back the rest. -/
def gather (word : Nat) : List Char → Nat × List Char
  | [] => (word, [])
  | c :: rest =>
    let next := word * 10 + (c.toNat - '0'.toNat)
    if next < 0x10000000000000000 then gather next rest else (word, c :: rest)

/-- The decimal that is left of a numeral with a sign.  Each digit before the point that the word
does not hold leaves a power of ten behind; digits behind the point are gathered all the same, and
those that do not fit are dropped. -/
def Numeral.gathered (negative : Bool) (n : Numeral) : Decimal :=
  let fraction := n.fraction.getD []
  let (whole, left) := gather 0 n.integral
  let (significand, dropped) := gather whole fraction
  ⟨negative, significand, n.shift + left.length - (fraction.length - dropped.length : Nat)⟩

/-! ## Powers of ten -/

/-- The exponent of the greatest power of ten that a double holds. -/
def greatestPower : Nat := 308

/-- The double nearest to a power of ten. -/
def powerOfTen (exponent : Nat) : Double := Decimal.toFloating .double ⟨false, 1, exponent⟩

/-- A number divided by the greatest power of ten as often as given, or until it is zero. -/
def lowered : Nat → Double → Double
  | 0, x => x
  | steps + 1, x => if x.isZero then x else lowered steps (x / powerOfTen greatestPower)

/-- The double that a decimal is read as, unless it is too large. -/
def Decimal.scaled? (d : Decimal) : Option Double :=
  let x := Floating.ofScaled .double d.negative d.coefficient 0
  if x.isZero then some x
  else
    match d.exponent with
    | .ofNat above =>
      if above ≤ greatestPower then some (x * powerOfTen above) |>.filter Floating.isFinite
      else none
    -- Below the point stand `below + 1` places, the last power divided by being ten at least.
    | .negSucc below =>
      some (lowered (below / greatestPower) x / powerOfTen (below % greatestPower + 1))

end CanTables.Numeric
