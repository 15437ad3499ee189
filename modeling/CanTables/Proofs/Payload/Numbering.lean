import CanTables.Payload.Numbering
import CanTables.Proofs.Payload.Field

/-!
# CanTables.Proofs.Payload.Numbering — a field in the inverted numbering

In the inverted numbering a field is named by its last bit, and the bits of each byte are counted
from the other end; counting them again from there gives the first numbering back
(`flipInByte_flipInByte`).  So a position `p` and a length name the field whose last bit is
`flipInByte p`, and what `invertPosition` adds is the way from its last bit to its first.

`invertPosition_names_field`: there is such a field unless it would begin before the payload, each
field is named by exactly one position, and the position is where its least significant bit is.  An
empty field has no last bit, so nothing is said about those.
-/

namespace CanTables.Payload

/-! ## Places in a byte -/

theorem flipInByte_flipInByte (position : Nat) : flipInByte (flipInByte position) = position := by
  unfold flipInByte
  omega

/-- Flipping stays in the byte, so a position of 32 bits stays one. -/
theorem flipInByte_lt (position : UInt32) : flipInByte position.toNat < UInt32.size := by
  have hsize : UInt32.size = 8 * 536870912 := rfl
  have hlt : position.toNat < UInt32.size := position.toNat_lt
  unfold flipInByte
  omega

theorem eq_ofNat_flipInByte_iff {position : UInt32} {n : Nat} (h : n < UInt32.size) :
    position = .ofNat (flipInByte n) ↔ flipInByte position.toNat = n := by
  have hn : flipInByte n < UInt32.size := by
    simpa [Nat.mod_eq_of_lt h] using flipInByte_lt (.ofNat n)
  rw [← UInt32.toNat_inj, UInt32.toNat_ofNat_of_lt' hn]
  constructor
  · intro heq
    rw [heq, flipInByte_flipInByte]
  · intro heq
    rw [← heq, flipInByte_flipInByte]

/-! ## Inversion -/

section Inversion

variable {position length first : UInt32} (nonempty : 1 ≤ length)
include nonempty

/-- The field that is named is the one with that last bit. -/
theorem invertPosition_eq_ok_iff : invertPosition position length = .ok first ↔
    first.toNat + length.toNat = flipInByte position.toNat + 1 := by
  have hlength : 1 ≤ length.toNat := UInt32.le_iff_toNat_le.mp nonempty
  have hlast := flipInByte_lt position
  have hfirst : first.toNat < UInt32.size := first.toNat_lt
  unfold invertPosition
  dsimp only
  split
  · next hfits =>
    rw [Except.ok.injEq, ← UInt32.toNat_inj, UInt32.toNat_ofNat_of_lt' (by omega)]
    omega
  · next hfits =>
    refine iff_of_false nofun fun heq => hfits ?_
    omega

/-- No field is named exactly if it would begin before the payload; a first bit that is there always
fits 32 bits. -/
theorem invertPosition_eq_error_iff {fault : InversionFault} :
    invertPosition position length = .error fault ↔
      flipInByte position.toNat + 1 < length.toNat ∧ fault = ⟨position, length⟩ := by
  have hlength : 1 ≤ length.toNat := UInt32.le_iff_toNat_le.mp nonempty
  have hlast := flipInByte_lt position
  unfold invertPosition
  dsimp only
  split
  · next hfits =>
    refine iff_of_false nofun fun hshort => ?_
    omega
  · next hfits =>
    rw [Except.error.injEq, eq_comm]
    refine ⟨fun heq => ⟨?_, heq⟩, And.right⟩
    omega

end Inversion

/-- What a position and a length name in the inverted numbering.  It fails exactly if the field would
begin before the payload.  Otherwise the field's last bit is the flipped position, its value has
there the bit of weight one, and its last bit alone is named by the position again.  And every field
that ends within 32 bits is named by exactly one position, its flipped last bit. -/
theorem invertPosition_names_field (position length : UInt32) (nonempty : 1 ≤ length) :
    (invertPosition position length = .error ⟨position, length⟩ ↔
        flipInByte position.toNat + 1 < length.toNat) ∧
      ((∃ fault, invertPosition position length = .error fault) ↔
        flipInByte position.toNat + 1 < length.toNat) ∧
      (∀ first, invertPosition position length = .ok first →
        first.toNat + length.toNat - 1 = flipInByte position.toNat ∧
          invertPosition (.ofNat (first.toNat + length.toNat - 1)) 1 = .ok position ∧
          (length ≤ 64 → ∀ (data : List UInt8) (k : Nat),
            (field data first.toNat length.toNat).testBit k =
              (decide (k < length.toNat) && bitAt data (flipInByte position.toNat - k)))) ∧
      ∀ first : UInt32, first.toNat + length.toNat - 1 < UInt32.size → ∀ position' : UInt32,
        invertPosition position' length = .ok first ↔
          position' = .ofNat (flipInByte (first.toNat + length.toNat - 1)) := by
  have hlength : 1 ≤ length.toNat := UInt32.le_iff_toNat_le.mp nonempty
  refine ⟨?_, ?_, ?_, ?_⟩
  · rw [invertPosition_eq_error_iff nonempty]
    exact and_iff_left rfl
  · simp only [invertPosition_eq_error_iff nonempty, exists_and_left, exists_eq, and_true]
  · intro first hfirst
    have hends := (invertPosition_eq_ok_iff nonempty).mp hfirst
    have hlast : first.toNat + length.toNat - 1 = flipInByte position.toNat := by omega
    refine ⟨hlast, ?_, ?_⟩
    · -- The last bit alone is a field of length one that ends where it begins.
      have hone : (1 : UInt32).toNat = 1 := rfl
      rw [hlast, invertPosition_eq_ok_iff (by decide), hone,
        UInt32.toNat_ofNat_of_lt' (flipInByte_lt position), flipInByte_flipInByte]
    · intro hwidth data k
      have hwidth : length.toNat ≤ 64 := UInt32.le_iff_toNat_le.mp hwidth
      rw [testBit_field, Nat.min_eq_left hwidth, hlast]
  · intro first hfits position'
    rw [invertPosition_eq_ok_iff nonempty, eq_ofNat_flipInByte_iff hfits]
    omega

/-- Sixteen bits that end in the last bit of the fourth byte are named by the position 24; they are
the third and the fourth byte. -/
theorem invertPosition_names_field_twoBytes : 1 ≤ (16 : UInt32) ∧
    invertPosition 24 16 = .ok 16 ∧ invertPosition 31 1 = .ok 24 ∧
      (∀ data k, (field data 16 16).testBit k = (decide (k < 16) && bitAt data (31 - k))) ∧
      ∀ position, invertPosition position 16 = .ok 16 ↔ position = 24 := by
  obtain ⟨-, -, hnamed, honly⟩ := invertPosition_names_field 24 16 (by decide)
  have hfirst : invertPosition 24 16 = .ok 16 := (honly 16 (by decide) 24).mpr (by decide)
  obtain ⟨-, hlast, hbits⟩ := hnamed 16 hfirst
  exact ⟨by decide, hfirst, hlast, hbits (by decide), honly 16 (by decide)⟩

/-- Sixteen bits would have to begin before the payload to end in the first byte. -/
example : invertPosition 0 16 = .error ⟨0, 16⟩ ∧ invertPosition 8 16 = .ok 0 := by decide

end CanTables.Payload
