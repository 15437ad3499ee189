import CanTables.Numeric.Floating

/-!
# CanTables.Payload.Field — bit fields of a payload

The bits of a payload are numbered from the most significant bit of the first byte, and a field is
given by its first bit and its length.  This module says which bytes a field touches, where in its
last byte it ends, and which number its bits spell.

A field is read through a window of at most sixteen bytes, the last ones that it touches, and the
low sixty-four bits of what the window shows are its value.  Bytes behind the end of the payload
read as zero.
-/

namespace CanTables.Payload

open Numeric

/-! ## Addressing -/

/-- One past the last bit of a field. -/
def fieldEnd (start length : Nat) : Nat := start + length

/-- The bit of its last byte, from one to eight, behind which a field ends. -/
def endBit (start length : Nat) : Nat :=
  if fieldEnd start length % 8 = 0 then 8 else fieldEnd start length % 8

/-- The byte that holds the first bit of a field. -/
def startingByte (start : Nat) : Nat := start / 8

/-- The byte that holds the last bit of a field; an empty field counts as one bit long when it
starts at a payload's beginning. -/
def endingByte (start length : Nat) : Nat := (fieldEnd start length - 1) / 8

/-- Width of the window through which a field is read, in bits. -/
def windowBits : Nat := 128

/-- Widest value that a field can have, in bits. -/
def valueBits : Nat := 64

/-- The low bits all set, as many as asked for but no more than the window has. -/
def bitmask (length : Nat) : Nat := Nat.pow 2 (min length windowBits) - 1

/-! ## Reading -/

/-- The byte at an index, zero behind the payload's end. -/
def byteAt (data : List UInt8) (index : Nat) : Nat := (data[index]?.getD 0).toNat

/-- The number that the bytes from `first` on spell, most significant byte first. -/
def bytesValue (data : List UInt8) (first count : Nat) : Nat :=
  (List.range' first count).foldl (fun value index => value * 256 + byteAt data index) 0

/-- The first byte that the window of a field still holds. -/
def windowStart (start length : Nat) : Nat :=
  max (startingByte start) (endingByte start length + 1 - windowBits / 8)

/-- What the window of a field shows. -/
def window (data : List UInt8) (start length : Nat) : Nat :=
  let first := windowStart start length
  bytesValue data first (endingByte start length + 1 - first)

/-- The unsigned number that the bits of a field spell, as far as sixty-four bits go. -/
def field (data : List UInt8) (start length : Nat) : Nat :=
  if length = 0 then 0
  else
    window data start length / Nat.pow 2 (8 - endBit start length) %
      Nat.pow 2 (min length valueBits)

/-- The physical value of a field: its number scaled and shifted, each step rounded once. -/
def decode (data : List UInt8) (start length : Nat) (factor offset : Double) : Double :=
  Floating.ofInt .double (field data start length) * factor + offset

end CanTables.Payload
