import Mathlib.Data.Nat.Bitwise

/-!
# CanTables.Proofs.Numeric.Word — arithmetic on words that must not overflow

A word is a bit vector as wide as the register that holds it.  The operations here have a result
only if the word that they compute is the exact number, so a computation made of them has a result
only if none of its intermediate values leaves its width.  What shifting to the left moves out of a
word is lost on purpose; shifting is refused only for amounts that are no place of the word.

`Yields` says which number such a computation arrives at, and there is one lemma for each operation.
-/

namespace CanTables.Numeric.Word

variable {w v : Nat}

/-! ## Operations -/

/-- The sum of unsigned words. -/
def add? (a b : BitVec w) : Option (BitVec w) := if a.uaddOverflow b then none else some (a + b)

/-- The difference of unsigned words. -/
def sub? (a b : BitVec w) : Option (BitVec w) := if a.usubOverflow b then none else some (a - b)

/-- The product of unsigned words. -/
def mul? (a b : BitVec w) : Option (BitVec w) := if a.umulOverflow b then none else some (a * b)

/-- The sum of words in two's complement. -/
def addSigned? (a b : BitVec w) : Option (BitVec w) :=
  if a.saddOverflow b then none else some (a + b)

/-- The difference of words in two's complement. -/
def subSigned? (a b : BitVec w) : Option (BitVec w) :=
  if a.ssubOverflow b then none else some (a - b)

/-- A word shifted to the left by a place of it. -/
def shiftLeft? (a : BitVec w) (amount : Nat) : Option (BitVec w) :=
  if amount < w then some (a <<< amount) else none

/-- A word shifted to the right by a place of it. -/
def shiftRight? (a : BitVec w) (amount : Nat) : Option (BitVec w) :=
  if amount < w then some (a >>> amount) else none

/-- An unsigned word in a register of another width. -/
def resize? (v : Nat) (a : BitVec w) : Option (BitVec v) :=
  if a.toNat < 2 ^ v then some (a.setWidth v) else none

/-- The difference of unsigned words, zero where there is none. -/
def subOrZero (a b : BitVec w) : BitVec w := if a.toNat < b.toNat then 0#w else a - b

/-! ## Results -/

/-- A computation has a result, and it is an unsigned number. -/
def Yields (computed : Option (BitVec w)) (n : Nat) : Prop :=
  ∃ a, computed = some a ∧ a.toNat = n

theorem yields_some (a : BitVec w) : Yields (some a) a.toNat := ⟨a, rfl, rfl⟩

/-- What follows a computation only has to be looked at for the number that it yields. -/
theorem Yields.bind {computed : Option (BitVec w)} {n m : Nat} (h : Yields computed n)
    {next : BitVec w → Option (BitVec v)} (hnext : ∀ a, a.toNat = n → Yields (next a) m) :
    Yields (computed >>= next) m := by
  obtain ⟨a, rfl, ha⟩ := h
  exact hnext a ha

variable {a b : BitVec w}

theorem yields_add? (h : a.toNat + b.toNat < 2 ^ w) : Yields (add? a b) (a.toNat + b.toNat) := by
  have hfits : ¬ a.uaddOverflow b := by simpa [BitVec.uaddOverflow] using h
  rw [add?, if_neg hfits]
  exact ⟨_, rfl, BitVec.toNat_add_of_not_uaddOverflow hfits⟩

theorem yields_sub? (h : b.toNat ≤ a.toNat) : Yields (sub? a b) (a.toNat - b.toNat) := by
  have hfits : ¬ a.usubOverflow b := by simpa [BitVec.usubOverflow] using h
  rw [sub?, if_neg hfits]
  exact ⟨_, rfl, BitVec.toNat_sub_of_not_usubOverflow hfits⟩

theorem yields_mul? (h : a.toNat * b.toNat < 2 ^ w) : Yields (mul? a b) (a.toNat * b.toNat) := by
  have hfits : ¬ a.umulOverflow b := by simpa [BitVec.umulOverflow] using h
  rw [mul?, if_neg hfits]
  exact ⟨_, rfl, BitVec.toNat_mul_of_not_umulOverflow hfits⟩

theorem yields_shiftLeft? {amount : Nat} (h : amount < w) :
    Yields (shiftLeft? a amount) (a.toNat * 2 ^ amount % 2 ^ w) := by
  rw [shiftLeft?, if_pos h]
  exact ⟨_, rfl, by rw [BitVec.toNat_shiftLeft, Nat.shiftLeft_eq]⟩

theorem yields_shiftRight? {amount : Nat} (h : amount < w) :
    Yields (shiftRight? a amount) (a.toNat / 2 ^ amount) := by
  rw [shiftRight?, if_pos h]
  exact ⟨_, rfl, by rw [BitVec.toNat_ushiftRight, Nat.shiftRight_eq_div_pow]⟩

theorem yields_resize? (h : a.toNat < 2 ^ v) : Yields (resize? v a) a.toNat := by
  rw [resize?, if_pos h]
  exact ⟨_, rfl, by rw [BitVec.toNat_setWidth, Nat.mod_eq_of_lt h]⟩

theorem toNat_subOrZero (a b : BitVec w) : (subOrZero a b).toNat = a.toNat - b.toNat := by
  rw [subOrZero]
  split
  · next hlt => rw [BitVec.toNat_zero, Nat.sub_eq_zero_of_le hlt.le]
  · next hle => rw [BitVec.toNat_sub_of_le (BitVec.le_def.mpr (Nat.le_of_not_lt hle))]

/-! ## Words in two's complement -/

/-- A word that a wider one holds is never negative there. -/
theorem toInt_setWidth_of_lt (h : w < v) (a : BitVec w) : (a.setWidth v).toInt = a.toNat := by
  have hpow : 2 ^ (w + 1) ≤ 2 ^ v := Nat.pow_le_pow_right (by decide) h
  have hlt : 2 * a.toNat < 2 ^ v := by
    rw [Nat.pow_succ] at hpow
    omega
  have hsame : (a.setWidth v).toNat = a.toNat := by
    rw [BitVec.toNat_setWidth, Nat.mod_eq_of_lt (by omega)]
  rw [BitVec.toInt_eq_toNat_of_lt (by omega), hsame]

theorem addSigned?_eq_some (hlo : -2 ^ (w - 1) ≤ a.toInt + b.toInt)
    (hhi : a.toInt + b.toInt < 2 ^ (w - 1)) :
    addSigned? a b = some (a + b) ∧ (a + b).toInt = a.toInt + b.toInt := by
  have hfits : ¬ a.saddOverflow b := by simp [BitVec.saddOverflow]; omega
  exact ⟨if_neg hfits, BitVec.toInt_add_of_not_saddOverflow hfits⟩

theorem subSigned?_eq_some (hlo : -2 ^ (w - 1) ≤ a.toInt - b.toInt)
    (hhi : a.toInt - b.toInt < 2 ^ (w - 1)) :
    subSigned? a b = some (a - b) ∧ (a - b).toInt = a.toInt - b.toInt := by
  have hfits : ¬ a.ssubOverflow b := by simp [BitVec.ssubOverflow]; omega
  exact ⟨if_neg hfits, BitVec.toInt_sub_of_not_ssubOverflow hfits⟩

end CanTables.Numeric.Word
