import CanTables.Payload.Field
import Mathlib.Algebra.BigOperators.Group.Finset.Basic
import Mathlib.Algebra.BigOperators.Ring.Finset
import Mathlib.Data.Nat.ModEq
import Mathlib.Tactic.Ring

/-!
# CanTables.Proofs.Payload.Field — the number that the bits of a field spell

A field is read byte by byte through a window of sixteen bytes, shifted to the right and cut off;
what it is meant to be is the sum of its bits, each with the weight of its place (`spelled`).  Both
are compared bit by bit.  The value of a run of bytes has the payload's bits in reversed order
(`testBit_bytesValue`), the shift moves the last bit of the field to weight one, and cutting off
leaves at most sixty-four bits.

`field_eq_spelled`: whatever the payload and the field, the value is the sum of the field's bits as
far as sixty-four bits go.  No field is excluded: one that is empty, that ends on a byte boundary,
that reaches behind the payload's end or that is wider than the window.
-/

namespace CanTables.Payload

/-! ## Bits of a payload -/

/-- The bit of a payload at an index.  The first bit is the most significant one of the first byte,
and behind the end no bit is set. -/
def bitAt (data : List UInt8) (index : Nat) : Bool :=
  data[index / 8]?.any fun byte => byte.toNat.testBit (7 - index % 8)

/-- The number that the bits of a field spell, most significant bit first. -/
def spelled (data : List UInt8) (start length : Nat) : Nat :=
  ∑ j ∈ Finset.range length, (bitAt data (start + j)).toNat * 2 ^ (length - 1 - j)

variable (data : List UInt8)

theorem byteAt_lt (index : Nat) : byteAt data index < 2 ^ 8 := UInt8.toNat_lt _

theorem testBit_byteAt (index : Nat) {k : Nat} (h : k < 8) :
    (byteAt data index).testBit k = bitAt data (8 * index + (7 - k)) := by
  have hbyte : (8 * index + (7 - k)) / 8 = index := by omega
  have hplace : 7 - (8 * index + (7 - k)) % 8 = k := by omega
  unfold bitAt byteAt
  rw [hbyte, hplace]
  cases data[index]? with
  | none => simp
  | some byte => simp

theorem spelled_succ (start length : Nat) :
    spelled data start (length + 1) =
      2 * spelled data start length + (bitAt data (start + length)).toNat := by
  unfold spelled
  rw [Finset.sum_range_succ, Finset.mul_sum]
  congr 1
  · apply Finset.sum_congr rfl
    intro j hj
    have hj : j < length := Finset.mem_range.mp hj
    have hweight : length + 1 - 1 - j = (length - 1 - j) + 1 := by omega
    rw [hweight, Nat.pow_succ]
    ring
  · simp

/-- The bits of the sum are those of the field, the last one with weight one. -/
theorem testBit_spelled (start length k : Nat) :
    (spelled data start length).testBit k =
      (decide (k < length) && bitAt data (start + length - 1 - k)) := by
  induction length generalizing k with
  | zero => simp [spelled]
  | succ length ih =>
    rw [spelled_succ]
    cases k with
    | zero =>
      have hlast : start + (length + 1) - 1 - 0 = start + length := by omega
      rw [hlast]
      cases bitAt data (start + length) <;> simp [Nat.testBit_zero, Nat.add_mod]
    | succ k =>
      have hhalf : (2 * spelled data start length + (bitAt data (start + length)).toNat) / 2 =
          spelled data start length := by
        have hbit := Bool.toNat_lt (bitAt data (start + length))
        omega
      have hindex : start + (length + 1) - 1 - (k + 1) = start + length - 1 - k := by omega
      rw [Nat.testBit_succ, hhalf, ih, hindex]
      simp

/-! ## Runs of bytes -/

theorem bytesValue_succ (first count : Nat) :
    bytesValue data first (count + 1) =
      2 ^ 8 * bytesValue data first count + byteAt data (first + count) := by
  unfold bytesValue
  rw [List.range'_1_concat, List.foldl_concat]
  omega

theorem bytesValue_lt (first count : Nat) : bytesValue data first count < 2 ^ (8 * count) := by
  induction count with
  | zero => simp [bytesValue]
  | succ count ih =>
    have hbyte := byteAt_lt data (first + count)
    have hpow : 2 ^ (8 * (count + 1)) = 2 ^ 8 * 2 ^ (8 * count) := by
      rw [← Nat.pow_add]
      congr 1
      omega
    rw [bytesValue_succ, hpow]
    omega

/-- The bits of a run of bytes are those of the payload, the last one with weight one. -/
theorem testBit_bytesValue (first count k : Nat) :
    (bytesValue data first count).testBit k =
      (decide (k < 8 * count) && bitAt data (8 * (first + count) - 1 - k)) := by
  induction count generalizing k with
  | zero => simp [bytesValue]
  | succ count ih =>
    rw [bytesValue_succ, Nat.testBit_two_pow_mul_add _ (byteAt_lt data (first + count))]
    by_cases hk : k < 8
    · -- The bit is one of the last byte's.
      have hindex : 8 * (first + count) + (7 - k) = 8 * (first + (count + 1)) - 1 - k := by omega
      have hall : k < 8 * (count + 1) := by omega
      rw [if_pos hk, testBit_byteAt data _ hk, hindex]
      simp [hall]
    · have hindex : 8 * (first + count) - 1 - (k - 8) = 8 * (first + (count + 1)) - 1 - k := by
        omega
      have hplace : k - 8 < 8 * count ↔ k < 8 * (count + 1) := by omega
      rw [if_neg hk, ih, hindex]
      simp only [hplace]

theorem bytesValue_add (first m n : Nat) :
    bytesValue data first (m + n) =
      2 ^ (8 * n) * bytesValue data first m + bytesValue data (first + m) n := by
  induction n with
  | zero => simp [bytesValue]
  | succ n ih =>
    rw [← Nat.add_assoc, bytesValue_succ, ih, bytesValue_succ, Nat.add_assoc first m n,
      Nat.mul_succ 8 n, Nat.pow_add]
    ring

/-! ## The window -/

/-- What a register as wide as the window holds once the bytes of a field were shifted in one after
the other. -/
def shiftedIn (data : List UInt8) (start length : Nat) : Nat :=
  (List.range' (startingByte start) (endingByte start length + 1 - startingByte start)).foldl
    (fun held index => (held * 256 + byteAt data index) % 2 ^ windowBits) 0

theorem foldl_shiftIn (first count : Nat) :
    (List.range' first count).foldl
        (fun held index => (held * 256 + byteAt data index) % 2 ^ windowBits) 0 =
      bytesValue data first count % 2 ^ windowBits := by
  induction count with
  | zero => simp [bytesValue]
  | succ count ih =>
    rw [List.range'_1_concat, List.foldl_concat, ih, bytesValue_succ, Nat.mul_comm (2 ^ 8)]
    exact Nat.ModEq.add_right _ ((Nat.mod_modEq _ _).mul_right 256)

/-- The window shows what the register holds: of a field that touches more bytes than fit, the
first ones have dropped out. -/
theorem window_eq_shiftedIn (start length : Nat) :
    window data start length = shiftedIn data start length := by
  have hbits : windowBits = 8 * 16 := rfl
  unfold window shiftedIn windowStart
  rw [foldl_shiftIn, hbits]
  by_cases h : endingByte start length + 1 - 16 ≤ startingByte start
  · rw [Nat.max_eq_left h]
    symm
    apply Nat.mod_eq_of_lt
    apply Nat.lt_of_lt_of_le (bytesValue_lt data _ _)
    apply Nat.pow_le_pow_right (by decide)
    omega
  · -- The bytes in front of the window only add multiples of its range.
    have hsplit : endingByte start length + 1 - startingByte start =
        (endingByte start length + 1 - 16 - startingByte start) + 16 := by omega
    have hfirst : startingByte start + (endingByte start length + 1 - 16 - startingByte start) =
        endingByte start length + 1 - 16 := by omega
    have hcount : endingByte start length + 1 - (endingByte start length + 1 - 16) = 16 := by omega
    rw [Nat.max_eq_right (by omega : startingByte start ≤ endingByte start length + 1 - 8 * 16 / 8),
      hsplit, bytesValue_add, hfirst, Nat.mul_add_mod]
    show bytesValue data (endingByte start length + 1 - 16)
      (endingByte start length + 1 - (endingByte start length + 1 - 16)) = _
    rw [hcount, Nat.mod_eq_of_lt (bytesValue_lt data _ 16)]

/-- A field ends in its last byte, behind the bit that `endBit` gives. -/
theorem endingByte_endBit (start : Nat) {length : Nat} (h : 0 < length) :
    8 * endingByte start length + endBit start length = start + length ∧
      0 < endBit start length ∧ endBit start length ≤ 8 := by
  unfold endingByte endBit fieldEnd
  split <;> omega

/-- The bits of a field's value are those of the field, as far as sixty-four bits go. -/
theorem testBit_field (start length k : Nat) :
    (field data start length).testBit k =
      (decide (k < min length 64) && bitAt data (start + length - 1 - k)) := by
  unfold field
  by_cases hempty : length = 0
  · simp [hempty]
  · obtain ⟨hend, hpos, hle⟩ := endingByte_endBit start (Nat.pos_of_ne_zero hempty)
    have hbits : windowBits / 8 = 16 := rfl
    have hwidth : valueBits = 64 := rfl
    rw [if_neg hempty]
    show (window data start length / 2 ^ (8 - endBit start length) %
      2 ^ min length valueBits).testBit k = _
    rw [Nat.testBit_mod_two_pow, Nat.testBit_div_two_pow, window, testBit_bytesValue, hwidth]
    by_cases hk : k < min length 64
    · -- The bit of the window is the field's, and it is not in front of the window.
      have hindex : 8 * (windowStart start length +
          (endingByte start length + 1 - windowStart start length)) - 1 -
            (k + (8 - endBit start length)) = start + length - 1 - k := by
        unfold windowStart startingByte
        omega
      have hinside : k + (8 - endBit start length) <
          8 * (endingByte start length + 1 - windowStart start length) := by
        unfold windowStart startingByte
        omega
      rw [hindex]
      simp [hk, hinside]
    · simp [hk]

/-! ## The value of a field -/

/-- The value of a field is the sum of its bits, most significant first, as far as sixty-four bits
go: all of it where the field is no wider, and its last sixty-four bits where it is, though the
register that its bytes are shifted into may have lost the first ones. -/
theorem field_eq_spelled (data : List UInt8) (start length : Nat) :
    field data start length = spelled data start length % 2 ^ 64 ∧
      (length ≤ 64 → field data start length = spelled data start length) ∧
      (64 ≤ length → field data start length = spelled data (start + (length - 64)) 64) ∧
      window data start length = shiftedIn data start length := by
  refine ⟨?_, ?_, ?_, window_eq_shiftedIn data start length⟩
  · apply Nat.eq_of_testBit_eq
    intro k
    rw [testBit_field, Nat.testBit_mod_two_pow, testBit_spelled]
    by_cases hwide : k < 64 <;> by_cases hlength : k < length <;> simp [hwide, hlength]
  · intro hlength
    apply Nat.eq_of_testBit_eq
    intro k
    rw [testBit_field, testBit_spelled, Nat.min_eq_left hlength]
  · intro hlength
    have hindex : start + (length - 64) + 64 = start + length := by omega
    apply Nat.eq_of_testBit_eq
    intro k
    rw [testBit_field, testBit_spelled, Nat.min_eq_right hlength, hindex]

/-- A field across two bytes, and one that ends behind the payload. -/
example : field [0x0f, 0xf0] 4 8 = 0xff ∧ field [0xab] 4 8 = 0xb0 := by decide

end CanTables.Payload
