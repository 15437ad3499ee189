import CanTables.Proofs.Numeric.Word
import CanTables.Proofs.Payload.Numbering

/-!
# CanTables.Proofs.Payload.Words — addressing in words

`CanTables.Payload.Field` and `CanTables.Payload.Numbering` count bits and bytes in numbers of any
size.  On a machine a field is given by two words of 32 bits: its end is a word of 64, its bytes are
shifted into a register as wide as the window, and an inverted position passes through a signed word
of 64 bits.  The computations of `Payload.Words` are made of the operations of `Numeric.Word`, so
they have a result only if no intermediate value leaves its word.

`addressing_exact`: each of them has a result for every field, and it is the number that this library
computes.  The bytes and the bit in the last byte are where the field is.
-/

namespace CanTables.Payload

open Numeric.Word

namespace Words

/-! ## Computations -/

/-- One past the last bit of a field. -/
def fieldEnd (start length : UInt32) : Option (BitVec 64) :=
  add? (start.toBitVec.setWidth 64) (length.toBitVec.setWidth 64)

/-- The bit of its last byte behind which a field ends. -/
def endBit (start length : UInt32) : Option (BitVec 32) := do
  let behind ← fieldEnd start length
  if behind % 8 = 0 then return 8 else resize? 32 (behind % 8)

/-- The byte that holds the first bit of a field, as an index of some width. -/
def startingByte (indexBits : Nat) (start : UInt32) : Option (BitVec indexBits) :=
  resize? indexBits (start.toBitVec / 8)

/-- The byte that holds the last bit of a field, as an index of some width. -/
def endingByte (indexBits : Nat) (start length : UInt32) : Option (BitVec indexBits) := do
  let behind ← fieldEnd start length
  resize? indexBits (subOrZero behind 1 / 8)

/-- The low bits of a register all set. -/
def bitmask (length : UInt32) : Option (BitVec 128) :=
  if 128 ≤ length then some (BitVec.allOnes 128)
  else do
    let power ← shiftLeft? 1 length.toNat
    sub? power 1

/-- The bit with the same place in its byte, counted from the other end of the byte. -/
def flipInByte (position : UInt32) : Option (BitVec 32) := do
  let front ← mul? 8 (position.toBitVec / 8)
  let place ← sub? 7 (position.toBitVec % 8)
  add? front place

/-- The first bit of a field whose last bit is given in the inverted numbering. -/
def invertPosition (position length : UInt32) : Option (Except InversionFault UInt32) := do
  let last ← flipInByte position
  let before ← subSigned? (last.setWidth 64) (length.toBitVec.setWidth 64)
  let first ← addSigned? before 1
  if 0 ≤ first.toInt ∧ first.toInt < UInt32.size then
    return .ok (.ofBitVec (first.setWidth 32))
  else return .error ⟨position, length⟩

/-- A byte behind those that a register holds. -/
def shiftIn (data : List UInt8) (held : BitVec 128) (index : Nat) : Option (BitVec 128) := do
  let shifted ← shiftLeft? held 8
  return shifted ||| (data[index]?.getD 0).toBitVec.setWidth 128

/-- The unsigned number that the bits of a field spell, as far as sixty-four bits go. -/
def field (indexBits : Nat) (data : List UInt8) (start length : UInt32) : Option (BitVec 64) :=
  if length = 0 then some 0
  else do
    let first ← startingByte indexBits start
    let last ← endingByte indexBits start length
    let raw ← (List.range' first.toNat (last.toNat + 1 - first.toNat)).foldlM (shiftIn data) 0
    let behind ← endBit start length
    let unused ← sub? 8 behind
    let shifted ← shiftRight? raw unused.toNat
    let mask ← bitmask (min length 64)
    resize? 64 (shifted &&& mask)

end Words

/-! ## Every computation has its result -/

namespace Words

variable (start length : UInt32)

/-- What fits in a word of 32 bits fits in every wider one. -/
theorem lt_two_pow {n w : Nat} (hn : n < 2 ^ 32) (h : 32 ≤ w) : n < 2 ^ w :=
  Nat.lt_of_lt_of_le hn (Nat.pow_le_pow_right (by decide) h)

theorem toNat_setWidth_toBitVec {w : Nat} (h : 32 ≤ w) (n : UInt32) :
    (n.toBitVec.setWidth w).toNat = n.toNat := by
  rw [BitVec.toNat_setWidth, UInt32.toNat_toBitVec]
  exact Nat.mod_eq_of_lt (lt_two_pow n.toNat_lt h)

theorem yields_fieldEnd :
    Yields (fieldEnd start length) (Payload.fieldEnd start.toNat length.toNat) := by
  have hstart := start.toNat_lt
  have hlength := length.toNat_lt
  have hsum : (start.toBitVec.setWidth 64).toNat + (length.toBitVec.setWidth 64).toNat =
      start.toNat + length.toNat := by
    rw [toNat_setWidth_toBitVec (by decide), toNat_setWidth_toBitVec (by decide)]
  have hyields := yields_add? (a := start.toBitVec.setWidth 64) (b := length.toBitVec.setWidth 64)
    (by omega)
  rwa [hsum] at hyields

theorem yields_endBit :
    Yields (endBit start length) (Payload.endBit start.toNat length.toNat) := by
  refine (yields_fieldEnd start length).bind fun behind hbehind => ?_
  have hrest : (behind % 8).toNat = Payload.fieldEnd start.toNat length.toNat % 8 := by
    rw [BitVec.toNat_umod, hbehind]
    rfl
  have hzero : behind % 8 = 0 ↔ Payload.fieldEnd start.toNat length.toNat % 8 = 0 := by
    rw [← BitVec.toNat_inj, hrest]
    rfl
  unfold Payload.endBit
  split
  · next h =>
    rw [if_pos (hzero.mp h)]
    exact yields_some 8
  · next h =>
    rw [if_neg (mt hzero.mpr h), ← hrest]
    exact yields_resize? (by omega)

theorem yields_startingByte {indexBits : Nat} (wide : 32 ≤ indexBits) :
    Yields (startingByte indexBits start) (Payload.startingByte start.toNat) := by
  have hstart := start.toNat_lt
  have hbyte : (start.toBitVec / 8).toNat = Payload.startingByte start.toNat := by
    rw [BitVec.toNat_udiv]
    rfl
  rw [startingByte, ← hbyte]
  refine yields_resize? (lt_two_pow ?_ wide)
  rw [hbyte, Payload.startingByte]
  omega

theorem yields_endingByte {indexBits : Nat} (wide : 32 ≤ indexBits) :
    Yields (endingByte indexBits start length)
      (Payload.endingByte start.toNat length.toNat) := by
  have hstart := start.toNat_lt
  have hlength := length.toNat_lt
  refine (yields_fieldEnd start length).bind fun behind hbehind => ?_
  have hbyte : (subOrZero behind 1 / 8).toNat =
      Payload.endingByte start.toNat length.toNat := by
    rw [BitVec.toNat_udiv, toNat_subOrZero, hbehind]
    rfl
  rw [← hbyte]
  refine yields_resize? (lt_two_pow ?_ wide)
  rw [hbyte, Payload.endingByte, Payload.fieldEnd]
  omega

theorem yields_bitmask : Yields (bitmask length) (Payload.bitmask length.toNat) := by
  have hwindow : windowBits = 128 := rfl
  have h128 : (128 : UInt32).toNat = 128 := rfl
  unfold bitmask Payload.bitmask
  rw [hwindow]
  split
  · next h =>
    rw [UInt32.le_iff_toNat_le, h128] at h
    rw [Nat.min_eq_right h]
    exact yields_some _
  · next h =>
    rw [UInt32.le_iff_toNat_le, h128, Nat.not_le] at h
    rw [Nat.min_eq_left h.le]
    have hpow : 2 ^ length.toNat < 2 ^ 128 := Nat.pow_lt_pow_right (by decide) h
    refine (yields_shiftLeft? h).bind fun power hpower => ?_
    have hone : (1 : BitVec 128).toNat = 1 := rfl
    rw [hone, Nat.one_mul, Nat.mod_eq_of_lt hpow] at hpower
    have hpositive : 0 < 2 ^ length.toNat := Nat.two_pow_pos _
    have hyields := yields_sub? (a := power) (b := 1) (by omega)
    rwa [hpower, hone] at hyields

theorem yields_flipInByte (position : UInt32) :
    Yields (flipInByte position) (Payload.flipInByte position.toNat) := by
  have hposition := position.toNat_lt
  have hbyte : (position.toBitVec / 8).toNat = position.toNat / 8 := BitVec.toNat_udiv
  have hbit : (position.toBitVec % 8).toNat = position.toNat % 8 := BitVec.toNat_umod
  have h8 : (8 : BitVec 32).toNat = 8 := rfl
  have h7 : (7 : BitVec 32).toNat = 7 := rfl
  refine (yields_mul? (by rw [h8]; omega)).bind fun front hfront => ?_
  rw [h8, hbyte] at hfront
  refine (yields_sub? (by omega)).bind fun place hplace => ?_
  rw [h7, hbit] at hplace
  have hyields := yields_add? (a := front) (b := place) (by omega)
  rwa [hfront, hplace] at hyields

/-- A signed word that is in the range of unsigned words is the same number there. -/
theorem ofBitVec_setWidth {a : BitVec 64} (hpos : 0 ≤ a.toInt) (hlt : a.toInt < UInt32.size) :
    UInt32.ofBitVec (a.setWidth 32) = .ofNat a.toInt.toNat := by
  have hsize : UInt32.size = 2 ^ 32 := rfl
  have hcases := BitVec.toInt_eq_toNat_cond a
  have hword := a.isLt
  rw [← UInt32.toNat_inj, UInt32.toNat_ofBitVec, BitVec.toNat_setWidth,
    UInt32.toNat_ofNat_of_lt' (by omega)]
  omega

/-- An inverted position is found without leaving the words on the way; only the last step, which is
meant to refuse what has no position, does so. -/
theorem invertPosition_eq (position : UInt32) :
    invertPosition position length = some (Payload.invertPosition position length) := by
  have hlength := length.toNat_lt
  obtain ⟨last, hlast, hflip⟩ := yields_flipInByte position
  have hlastLt := last.isLt
  have hlastInt : (last.setWidth 64).toInt = last.toNat := toInt_setWidth_of_lt (by decide) last
  have hlengthInt : (length.toBitVec.setWidth 64).toInt = length.toNat :=
    toInt_setWidth_of_lt (by decide) _
  have hone : (1 : BitVec 64).toInt = 1 := rfl
  obtain ⟨hbefore, hbeforeInt⟩ := subSigned?_eq_some (a := last.setWidth 64)
    (b := length.toBitVec.setWidth 64) (by omega) (by omega)
  obtain ⟨hfirst, hfirstInt⟩ := addSigned?_eq_some
    (a := last.setWidth 64 - length.toBitVec.setWidth 64) (b := 1) (by omega) (by omega)
  have hexact : (last.setWidth 64 - length.toBitVec.setWidth 64 + 1).toInt =
      Payload.flipInByte position.toNat - length.toNat + 1 := by omega
  simp only [invertPosition, hlast, hbefore, hfirst, Option.bind_eq_bind, Option.bind_some]
  rw [hexact, Payload.invertPosition]
  split
  · next hfits =>
    rw [← hexact] at hfits ⊢
    rw [ofBitVec_setWidth hfits.1 hfits.2]
    rfl
  · rfl

theorem yields_shiftIn (data : List UInt8) (held : BitVec 128) (index : Nat) :
    Yields (shiftIn data held index)
      ((held.toNat * 256 + byteAt data index) % 2 ^ windowBits) := by
  refine (yields_shiftLeft? (by decide)).bind fun shifted hshifted => ?_
  have hlt := byteAt_lt data index
  have hbyte : ((data[index]?.getD 0).toBitVec.setWidth 128).toNat = byteAt data index := by
    rw [BitVec.toNat_setWidth]
    exact Nat.mod_eq_of_lt (by show byteAt data index < 2 ^ 128; omega)
  refine ⟨_, rfl, ?_⟩
  -- The byte comes where the shift has left zeros.
  have hzeros : held.toNat * 2 ^ 8 % 2 ^ 128 = 2 ^ 8 * (held.toNat % 2 ^ 120) := by omega
  have hwindow : windowBits = 128 := rfl
  rw [BitVec.toNat_or, hshifted, hbyte, hzeros, ← Nat.two_pow_add_eq_or_of_lt hlt, hwindow]
  omega

theorem yields_raw (data : List UInt8) (indices : List Nat) (held : BitVec 128) :
    Yields (indices.foldlM (shiftIn data) held) (indices.foldl
      (fun held index => (held * 256 + byteAt data index) % 2 ^ windowBits) held.toNat) := by
  induction indices generalizing held with
  | nil => exact yields_some held
  | cons index indices ih =>
    rw [List.foldlM_cons, List.foldl_cons]
    refine (yields_shiftIn data held index).bind fun next hnext => ?_
    rw [← hnext]
    exact ih next

/-- The low bits of a register are cut off by a mask of at most sixty-four bits. -/
theorem yields_cut {register : BitVec 128} :
    Yields (bitmask (min length 64) >>= fun mask => resize? 64 (register &&& mask))
      (register.toNat % 2 ^ min length.toNat valueBits) := by
  have hvalue : valueBits = 64 := rfl
  have hwindow : windowBits = 128 := rfl
  have hmin : (min length 64).toNat = min length.toNat valueBits := by
    rw [UInt32.toNat_min]
    rfl
  have hpow : 2 ^ min length.toNat valueBits ≤ 2 ^ 64 :=
    Nat.pow_le_pow_right (by decide) (Nat.min_le_right _ _)
  refine (yields_bitmask _).bind fun mask hmask => ?_
  have hcut : (register &&& mask).toNat = register.toNat % 2 ^ min length.toNat valueBits := by
    have hle : min (min length.toNat valueBits) windowBits = min length.toNat valueBits := by omega
    rw [BitVec.toNat_and, hmask, Payload.bitmask, hmin, hle]
    exact Nat.and_two_pow_sub_one_eq_mod _ _
  have hlt : register.toNat % 2 ^ min length.toNat valueBits < 2 ^ min length.toNat valueBits :=
    Nat.mod_lt _ (Nat.two_pow_pos _)
  rw [← hcut]
  exact yields_resize? (by omega)

theorem yields_field {indexBits : Nat} (wide : 32 ≤ indexBits) (data : List UInt8) :
    Yields (field indexBits data start length)
      (Payload.field data start.toNat length.toNat) := by
  have hzero : length = 0 ↔ length.toNat = 0 := by rw [← UInt32.toNat_inj]; rfl
  unfold field Payload.field
  split
  · next h =>
    rw [if_pos (hzero.mp h)]
    exact yields_some 0
  · next h =>
    have hne := mt hzero.mpr h
    obtain ⟨-, hpos, hle⟩ := endingByte_endBit start.toNat (Nat.pos_of_ne_zero hne)
    rw [if_neg hne]
    refine (yields_startingByte start wide).bind fun first hfirst => ?_
    refine (yields_endingByte start length wide).bind fun last hlast => ?_
    rw [hfirst, hlast]
    refine (yields_raw data _ 0).bind fun raw hraw => ?_
    have hraw : raw.toNat = window data start.toNat length.toNat := by
      rw [hraw, window_eq_shiftedIn]
      rfl
    refine (yields_endBit start length).bind fun behind hbehind => ?_
    have h8 : (8 : BitVec 32).toNat = 8 := rfl
    refine (yields_sub? (by omega)).bind fun unused hunused => ?_
    rw [h8, hbehind] at hunused
    refine (yields_shiftRight? (by omega)).bind fun shifted hshifted => ?_
    rw [hraw, hunused] at hshifted
    exact hshifted ▸ yields_cut length

end Words

/-! ## Places -/

/-- Every field that is not empty lies in its bytes. -/
structure Addresses (start length : Nat) : Prop where
  endBit_pos : 1 ≤ endBit start length
  endBit_le : endBit start length ≤ 8
  /-- The last byte and the bit in it are where the field ends. -/
  ends : 8 * endingByte start length + endBit start length = start + length
  /-- The first byte is the one in which the field begins. -/
  begins : 8 * startingByte start ≤ start ∧ start < 8 * startingByte start + 8
  ordered : startingByte start ≤ endingByte start length
  /-- A field that a value can hold touches nine bytes at most. -/
  spans : length ≤ valueBits → endingByte start length + 1 - startingByte start ≤ 9

theorem addresses (start : Nat) {length : Nat} (nonempty : 0 < length) : Addresses start length := by
  obtain ⟨hends, hpos, hle⟩ := endingByte_endBit start nonempty
  have hwidth : valueBits = 64 := rfl
  refine ⟨hpos, hle, hends, ?_, ?_, fun hlength => ?_⟩
  all_goals
    unfold startingByte
    omega

/-! ## Exact addressing -/

/-- Every computation about a field has a result, which is the number that it stands for: no
intermediate value leaves its word. -/
structure FitsWords (indexBits : Nat) (start length : UInt32) : Prop where
  fieldEnd : Yields (Words.fieldEnd start length) (fieldEnd start.toNat length.toNat)
  endBit : Yields (Words.endBit start length) (endBit start.toNat length.toNat)
  startingByte : Yields (Words.startingByte indexBits start) (startingByte start.toNat)
  endingByte :
    Yields (Words.endingByte indexBits start length) (endingByte start.toNat length.toNat)
  bitmask : Yields (Words.bitmask length) (bitmask length.toNat)
  invertPosition : Words.invertPosition start length = some (invertPosition start length)
  field : ∀ data,
    Yields (Words.field indexBits data start length) (field data start.toNat length.toNat)

/-- Wherever a field begins and however long it is, no word overflows on the way to its bytes, to the
bit in which it ends, to its mask, to its inverted position or to its value, on every machine whose
indices have 32 bits or more.  A field that is not empty lies exactly in these bytes. -/
theorem addressing_exact (start length : UInt32) {indexBits : Nat} (wide : 32 ≤ indexBits) :
    (1 ≤ length → Addresses start.toNat length.toNat) ∧ FitsWords indexBits start length := by
  constructor
  · intro nonempty
    exact addresses start.toNat (UInt32.le_iff_toNat_le.mp nonempty)
  · exact {
      fieldEnd := Words.yields_fieldEnd start length
      endBit := Words.yields_endBit start length
      startingByte := Words.yields_startingByte start wide
      endingByte := Words.yields_endingByte start length wide
      bitmask := Words.yields_bitmask length
      invertPosition := Words.invertPosition_eq length start
      field := Words.yields_field start length wide }

/-- The longest field at the last position, with indices of 32 bits. -/
theorem addressing_exact_greatest : 32 ≤ 32 ∧ (1 : UInt32) ≤ 4294967295 ∧
    Addresses 4294967295 4294967295 ∧ Yields (Words.endBit 4294967295 4294967295) 6 ∧
      Yields (Words.endingByte 32 4294967295 4294967295) 1073741823 ∧
      Words.invertPosition 4294967295 4294967295 =
        some (.error ⟨4294967295, 4294967295⟩) := by
  obtain ⟨hplaces, hwords⟩ := addressing_exact 4294967295 4294967295 (Nat.le_refl 32)
  exact ⟨Nat.le_refl 32, by decide, hplaces (by decide), hwords.endBit, hwords.endingByte,
    hwords.invertPosition⟩

end CanTables.Payload
