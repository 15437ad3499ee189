/-!
# CanTables.Text.Digits — unsigned numerals in any base up to sixteen

Reading accepts one or more digits of the base, letters in either case, and nothing else: no sign,
no separator, no blank.  Writing uses lower-case letters and no superfluous zero.
-/

namespace CanTables.Text.Digits

/-- The value of a digit character, letters counting from ten in either case. -/
def value? (c : Char) : Option Nat :=
  if '0' ≤ c ∧ c ≤ '9' then some (c.toNat - '0'.toNat)
  else if 'a' ≤ c ∧ c ≤ 'f' then some (c.toNat - 'a'.toNat + 10)
  else if 'A' ≤ c ∧ c ≤ 'F' then some (c.toNat - 'A'.toNat + 10)
  else none

/-- The value of a character as a digit of a base. -/
def valueIn? (base : Nat) (c : Char) : Option Nat :=
  (value? c).filter (· < base)

/-- One more digit behind a value already read. -/
def shiftIn (base : Nat) (value : Nat) (c : Char) : Option Nat :=
  (valueIn? base c).map (value * base + ·)

/-- The value of a run of digits, which may be empty. -/
def valueOf? (base : Nat) (cs : List Char) : Option Nat := cs.foldlM (shiftIn base) 0

/-- The value of a numeral: one or more digits of the base. -/
def read? (base : Nat) (cs : List Char) : Option Nat :=
  if cs.isEmpty then none else valueOf? base cs

/-- A decimal digit. -/
def isDecimal (c : Char) : Bool := '0' ≤ c && c ≤ '9'

/-- The value of a run of characters that are known to be decimal digits. -/
def decimalValue (cs : List Char) : Nat :=
  cs.foldl (fun value c => value * 10 + (c.toNat - '0'.toNat)) 0

/-- The numeral of a number. -/
def write (base : Nat) (n : Nat) : List Char := Nat.toDigits base n

/-- The decimal numeral of a number, led by zeros up to a width. -/
def padded (width : Nat) (n : Nat) : List Char :=
  let digits := write 10 n
  List.replicate (width - digits.length) '0' ++ digits

/-- The lower-case hexadecimal numeral of a number. -/
def hex (n : Nat) : String := String.ofList (write 16 n)

/-- The decimal numeral of an integer, led by a minus sign when negative. -/
def decimal (n : Int) : String :=
  String.ofList (if n < 0 then '-' :: write 10 n.natAbs else write 10 n.natAbs)

end CanTables.Text.Digits
