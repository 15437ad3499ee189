import CanTables.Numeric.Floating
import CanTables.Text.Digits

/-!
# CanTables.Numeric.Decimal — decimal numerals and the numbers nearest to them

A decimal numeral is split at its point and its exponent mark; two grammars are conditions on the
parts.  A *strict* numeral is the one of the configuration files (no superfluous zero, digits on
both sides of a point); a *free* numeral is the one of the network databases (digits on either side
of the point, a sign of either kind, words for infinity and not-a-number).

`Decimal.toFloating` rounds the exact decimal value once.
-/

namespace CanTables.Numeric

open Text

/-! ## Values -/

/-- The number `± coefficient · 10 ^ exponent`. -/
structure Decimal where
  negative : Bool
  coefficient : Nat
  exponent : Int
  deriving DecidableEq, Repr

namespace Decimal

/-- A power of ten beyond which every number of a format is infinite and below the inverse of
which every number is zero. -/
def extremeExponent : Nat := 400

/-- The floating-point number nearest to a decimal.  The coefficient is below ten to the power
`coefficient.log2 / 3 + 1`, so the second test only catches numbers that round to zero. -/
def toFloating (f : Format) (d : Decimal) : Floating f :=
  if d.coefficient = 0 then .zero f d.negative
  else if extremeExponent < d.exponent then .infinity f d.negative
  else if d.exponent + (d.coefficient.log2 / 3 + 1 : Nat) < -extremeExponent then
    .zero f d.negative
  else
    .ofRatio f d.negative (d.coefficient * Nat.pow 10 d.exponent.toNat)
      (Nat.pow 10 (-d.exponent).toNat)

end Decimal

/-! ## Numerals -/

/-- An unsigned numeral split at its marks: the digits before the point, those behind it if there
is a point, and the sign and digits of the exponent if there is one. -/
structure Numeral where
  integral : List Char
  fraction : Option (List Char)
  exponent : Option (Bool × List Char)
  deriving DecidableEq, Repr

namespace Numeral

/-- The sign and digits behind an exponent mark. -/
def splitExponent? (cs : List Char) : Option (Bool × List Char) :=
  let (negative, digits) :=
    match cs with
    | '-' :: rest => (true, rest)
    | '+' :: rest => (false, rest)
    | _ => (false, cs)
  if digits.all Digits.isDecimal then some (negative, digits) else none

/-- Splits a text at its point and its exponent mark; whatever is between them must be digits. -/
def split? (cs : List Char) : Option Numeral :=
  let integral := cs.takeWhile Digits.isDecimal
  let afterIntegral := cs.dropWhile Digits.isDecimal
  let (fraction, afterFraction) :=
    match afterIntegral with
    | '.' :: rest => (some (rest.takeWhile Digits.isDecimal), rest.dropWhile Digits.isDecimal)
    | _ => (none, afterIntegral)
  match afterFraction with
  | [] => some ⟨integral, fraction, none⟩
  | mark :: rest =>
    if mark = 'e' ∨ mark = 'E' then
      (splitExponent? rest).map fun exponent => ⟨integral, fraction, some exponent⟩
    else none

/-- An exponent mark is followed by at least one digit. -/
def exponentComplete (n : Numeral) : Bool :=
  n.exponent.all fun (_, digits) => !digits.isEmpty

/-- The grammar of the configuration files: at least one digit before the point, no superfluous
zero in front, at least one digit behind a point. -/
def isStrict (n : Numeral) : Bool :=
  (match n.integral with
    | [] => false
    | ['0'] => true
    | first :: _ => first != '0') &&
  n.fraction.all (fun digits => !digits.isEmpty) && n.exponentComplete

/-- The grammar of the network databases: at least one digit on either side of the point. -/
def isFree (n : Numeral) : Bool :=
  !(n.integral ++ n.fraction.getD []).isEmpty && n.exponentComplete

/-- Written without a point and without an exponent. -/
def isWhole (n : Numeral) : Bool := n.fraction.isNone && n.exponent.isNone

/-- The power of ten that the exponent of a numeral stands for. -/
def shift (n : Numeral) : Int :=
  match n.exponent with
  | none => 0
  | some (below, digits) =>
    if below then -(Digits.decimalValue digits) else Digits.decimalValue digits

/-- The value of a numeral with a sign. -/
def toDecimal (negative : Bool) (n : Numeral) : Decimal :=
  let fraction := n.fraction.getD []
  ⟨negative, Digits.decimalValue (n.integral ++ fraction), n.shift - fraction.length⟩

end Numeral

/-! ## Free numerals -/

/-- The same text in lower case, as far as ASCII letters go. -/
def lowerAscii (cs : List Char) : List Char := cs.map Char.toLower

/-- The 64-bit number that a free numeral denotes. -/
def readFree? (cs : List Char) : Option Double :=
  let (negative, unsigned) :=
    match cs with
    | '-' :: rest => (true, rest)
    | '+' :: rest => (false, rest)
    | _ => (false, cs)
  let word := lowerAscii unsigned
  if word = "inf".toList ∨ word = "infinity".toList then some (.infinity .double negative)
  else if word = "nan".toList then some (.invalid .double)
  else
    match Numeral.split? unsigned with
    | some n => if n.isFree then some ((n.toDecimal negative).toFloating .double) else none
    | none => none

end CanTables.Numeric
