import CanTables.Identifier
import Mathlib.Tactic.IntervalCases

/-!
# CanTables.Proofs.Identifier — canonical spellings

A numeral that was written reads back as its number.  So the canonical spelling of an identifier
spells it, and identifiers with one canonical spelling are one identifier.
-/

namespace CanTables

namespace Text.Digits

theorem valueIn?_digitChar {n : Nat} (h : n < 16) : valueIn? 16 (Nat.digitChar n) = some n := by
  interval_cases n <;> rfl

/-- Reading the digits that were written for a number yields the number. -/
theorem valueOf?_write (n : Nat) : valueOf? 16 (write 16 n) = some n := by
  induction n using Nat.base_induction 16 (by omega) with
  | single m hm =>
    rw [write, Nat.toDigits_of_lt_base hm, valueOf?]
    simp only [List.foldlM_cons, List.foldlM_nil, shiftIn, valueIn?_digitChar hm, Option.map_some,
      Option.bind_eq_bind, Option.bind_some, Option.pure_def, Nat.zero_mul, Nat.zero_add]
  | digit m k hk hm ih =>
    rw [write] at ih ⊢
    rw [← Nat.toDigits_append_toDigits (by omega) hm hk, Nat.toDigits_of_lt_base hk, valueOf?,
      List.foldlM_append]
    rw [valueOf?] at ih
    rw [ih]
    simp only [Option.bind_eq_bind, Option.bind_some, List.foldlM_cons, List.foldlM_nil, shiftIn,
      valueIn?_digitChar hk, Option.map_some, Option.bind_some, Option.pure_def]
    rw [Nat.mul_comm]

theorem read?_write (n : Nat) : read? 16 (write 16 n) = some n := by
  have hne : write 16 n ≠ [] := Nat.toDigits_ne_nil
  rw [read?, List.isEmpty_eq_false_iff.mpr hne]
  exact valueOf?_write n

theorem digitChar_ne {n : Nat} (h : n < 16) :
    isBlank (Nat.digitChar n) = false ∧ Nat.digitChar n ≠ '+' := by
  interval_cases n <;> decide

/-- Neither a blank nor a sign is written. -/
theorem ne_of_mem_write {n : Nat} {c : Char} (h : c ∈ write 16 n) :
    isBlank c = false ∧ c ≠ '+' := by
  induction n using Nat.base_induction 16 (by omega) with
  | single m hm =>
    rw [write, Nat.toDigits_of_lt_base hm, List.mem_singleton] at h
    rw [h]
    exact digitChar_ne hm
  | digit m k hk hm ih =>
    rw [write, ← Nat.toDigits_append_toDigits (by omega) hm hk, Nat.toDigits_of_lt_base hk] at h
    rcases List.mem_append.mp h with h | h
    · exact ih h
    · rw [List.mem_singleton.mp h]
      exact digitChar_ne hk

end Text.Digits

open Text

theorem Text.trim_eq_self {cs : List Char} (h : ∀ c ∈ cs, isBlank c = false) : trim cs = cs := by
  have hdrop : ∀ {l : List Char}, (∀ c ∈ l, isBlank c = false) → l.dropWhile isBlank = l := by
    intro l hl
    cases l with
    | nil => rfl
    | cons c rest => rw [List.dropWhile_cons_of_neg (by rw [hl c List.mem_cons_self]; decide)]
  rw [trim, hdrop h, hdrop fun c hc => h c (List.mem_reverse.mp hc), List.reverse_reverse]

namespace Identifier

theorem toList_key (id : UInt32) : (key id).toList = '0' :: 'x' :: Digits.write 16 id.toNat := by
  rw [key, String.toList_append, Digits.hex]
  simp only [String.toList_ofList]
  rfl

/-- The canonical spelling of an identifier spells it. -/
theorem parse?_key (id : UInt32) : parse? (key id) = some id := by
  have htrim : trim (key id).toList = '0' :: 'x' :: Digits.write 16 id.toNat := by
    rw [toList_key]
    refine trim_eq_self fun c hc => ?_
    rcases List.mem_cons.mp hc with rfl | hc
    · decide
    rcases List.mem_cons.mp hc with rfl | hc
    · decide
    exact (Digits.ne_of_mem_write hc).1
  have hplus : dropPlus (Digits.write 16 id.toNat) = Digits.write 16 id.toNat := by
    unfold dropPlus
    split
    · next rest hdigits =>
      have hmem : '+' ∈ Digits.write 16 id.toNat := by
        rw [hdigits]
        exact List.mem_cons_self
      exact absurd rfl (Digits.ne_of_mem_write hmem).2
    · rfl
  have hvalue : value? (key id).toList = some id.toNat := by
    show Digits.read? (splitBase (trim (key id).toList)).1
      (dropPlus (splitBase (trim (key id).toList)).2) = _
    rw [htrim]
    show Digits.read? 16 (dropPlus (Digits.write 16 id.toNat)) = _
    rw [hplus, Digits.read?_write]
  rw [parse?, hvalue, Option.bind_some, ofNat?, if_pos id.toNat_lt, UInt32.ofNat_toNat]

/-- Different identifiers have different canonical spellings. -/
theorem key_injective : Function.Injective key := by
  intro a b h
  have hparse := congrArg parse? h
  rw [parse?_key, parse?_key, Option.some.injEq] at hparse
  exact hparse

end Identifier

end CanTables
