/-!
# CanTables.Payload.Numbering — the other way of numbering bits

Some signal descriptions number the bits of each byte from its least significant bit and name the
last bit of a field instead of its first.  `invertPosition` turns such a position into the position
of the field's first bit in the numbering of `CanTables.Payload.Field`.

A field that would begin before the payload has no position, and neither has one whose position
does not fit 32 bits.
-/

namespace CanTables.Payload

/-- A field that has no position after inversion. -/
structure InversionFault where
  position : UInt32
  length : UInt32
  deriving DecidableEq, Repr

/-- What is reported about a field without a position. -/
def InversionFault.message (fault : InversionFault) : String :=
  "bit index " ++ toString fault.position.toNat ++ " with length " ++
    toString fault.length.toNat ++ " falls before the start of the payload when inverted"

/-- The bit with the same place in its byte, counted from the other end of the byte. -/
def flipInByte (position : Nat) : Nat := 8 * (position / 8) + (7 - position % 8)

/-- The first bit of a field whose last bit is given in the inverted numbering. -/
def invertPosition (position length : UInt32) : Except InversionFault UInt32 :=
  let first : Int := flipInByte position.toNat - length.toNat + 1
  if 0 ≤ first ∧ first < UInt32.size then .ok (.ofNat first.toNat) else .error ⟨position, length⟩

end CanTables.Payload
