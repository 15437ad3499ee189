import CanTables.Numeric.Decimal
import CanTables.Numeric.Fixed
import CanTables.Proofs.Text.Reading
import Mathlib.Algebra.Order.Field.Power
import Mathlib.Data.List.TakeWhile
import Mathlib.Tactic.FieldSimp
import Mathlib.Tactic.IntervalCases
import Mathlib.Tactic.Linarith
import Mathlib.Tactic.Positivity
import Mathlib.Tactic.Ring

/-!
# CanTables.Proofs.Numeric.Fixed — what a number with six decimal places denotes

A finite pattern stands for a rational number (`Floating.value?`), and so does a decimal
(`Decimal.value`).  What is written of a finite number is a literal, which is read as digits with a
point between them and a minus sign in front of a negative one (`readLiteral?`).

`Floating.fixed_denotes`: the literal denotes the decimal with six places that is nearest to the
number, whatever the exponent of the number is.  Nothing keeps it from being zero:
`Decimal.IsNearest.value_eq_zero_iff` says that it is for all numbers of half a unit of the last
place or less.
-/

namespace CanTables.Text.Digits

/-! ## Digits -/

theorem decimalValue_append (front back : List Char) :
    decimalValue (front ++ back) = decimalValue front * 10 ^ back.length + decimalValue back := by
  rw [decimalValue_eq, decimalValue_eq, decimalValue_eq, Nat.ofDigitChars_append,
    Nat.ofDigitChars_eq_ofDigitChars_zero, Nat.mul_comm]

theorem decimalValue_padded (width n : Nat) : decimalValue (padded width n) = n := by
  rw [padded, decimalValue_append, decimalValue_write, decimalValue_eq,
    Nat.ofDigitChars_replicate_zero, Nat.mul_zero, Nat.zero_mul, Nat.zero_add]

theorem length_padded {width n : Nat} (hwidth : 0 < width) (h : n < 10 ^ width) :
    (padded width n).length = width := by
  have hle : (write 10 n).length ≤ width := (Nat.length_toDigits_le_iff (by decide) hwidth).mpr h
  rw [padded, List.length_append, List.length_replicate]
  omega

theorem isDecimal_of_mem_padded {width n : Nat} {c : Char} (h : c ∈ padded width n) :
    isDecimal c = true := by
  rcases List.mem_append.mp h with hzero | hdigit
  · rw [List.eq_of_mem_replicate hzero]
    decide
  · exact isDecimal_of_mem_write hdigit

/-- A number that is not zero is written without a zero in front. -/
theorem exists_write_eq_cons {n : Nat} (h : 0 < n) :
    ∃ first rest, write 10 n = first :: rest ∧ first ≠ '0' := by
  induction n using Nat.strongRecOn with
  | ind n ih =>
    rcases Nat.lt_or_ge n 10 with hlt | hge
    · refine ⟨n.digitChar, [], Nat.toDigits_of_lt_base hlt, ?_⟩
      interval_cases n <;> decide
    · obtain ⟨first, rest, hwrite, hfirst⟩ := ih (n / 10) (by omega) (by omega)
      refine ⟨first, rest ++ [(n % 10).digitChar], ?_, hfirst⟩
      rw [write, Nat.toDigits_of_base_le (by decide) hge, ← write, hwrite, List.cons_append]

end CanTables.Text.Digits

namespace CanTables.Numeric

open Text Text.Digits

/-! ## Values -/

/-- A magnitude with a sign. -/
def signedValue (negative : Bool) (magnitude : ℚ) : ℚ := if negative then -magnitude else magnitude

/-- The number that a decimal stands for. -/
def Decimal.value (d : Decimal) : ℚ := signedValue d.negative (d.coefficient * 10 ^ d.exponent)

/-- The number that a pattern stands for, if it is finite. -/
def Floating.value? {f : Format} (x : Floating f) : Option ℚ :=
  match x.datum with
  | .finite negative coefficient exponent =>
    some (signedValue negative (coefficient * 2 ^ exponent))
  | _ => none

/-- The decimal that a strict numeral denotes, taken with a sign. -/
def readUnsigned? (negative : Bool) (cs : List Char) : Option Decimal :=
  (Numeral.split? cs).bind fun n => if n.isStrict then some (n.toDecimal negative) else none

/-- The decimal that a literal denotes: a strict numeral, behind a minus sign if it is negative. -/
def readLiteral? : List Char → Option Decimal
  | '-' :: rest => readUnsigned? true rest
  | cs => readUnsigned? false cs

/-! ## Reading a literal -/

/-- Two runs of digits with a point between them. -/
theorem split?_point {integral fraction : List Char}
    (hintegral : ∀ c ∈ integral, isDecimal c = true)
    (hfraction : ∀ c ∈ fraction, isDecimal c = true) :
    Numeral.split? (integral ++ '.' :: fraction) = some ⟨integral, some fraction, none⟩ := by
  have hpoint : isDecimal '.' = false := by decide
  have htake : (integral ++ '.' :: fraction).takeWhile isDecimal = integral := by
    rw [List.takeWhile_append_of_pos hintegral, List.takeWhile_cons_of_neg (by simp [hpoint]),
      List.append_nil]
  have hdrop : (integral ++ '.' :: fraction).dropWhile isDecimal = '.' :: fraction := by
    rw [List.dropWhile_append_of_pos hintegral, List.dropWhile_cons_of_neg (by simp [hpoint])]
  simp only [Numeral.split?, htake, hdrop, List.takeWhile_eq_self_iff.mpr hfraction,
    List.dropWhile_eq_nil_iff.mpr hfraction]

theorem isStrict_write (n : Nat) {fraction : List Char} (h : fraction ≠ []) :
    Numeral.isStrict ⟨write 10 n, some fraction, none⟩ = true := by
  have hfraction : fraction.isEmpty = false := List.isEmpty_eq_false_iff.mpr h
  rcases Nat.eq_zero_or_pos n with rfl | hpos
  · simp [Numeral.isStrict, Numeral.exponentComplete, hfraction, write]
  · obtain ⟨first, rest, hwrite, hfirst⟩ := exists_write_eq_cons hpos
    rw [hwrite]
    simp [Numeral.isStrict, Numeral.exponentComplete, hfraction, hfirst]

theorem readUnsigned?_point (negative : Bool) (n : Nat) {places rest : Nat} (hplaces : 0 < places)
    (hrest : rest < 10 ^ places) :
    readUnsigned? negative (write 10 n ++ '.' :: padded places rest) =
      some ⟨negative, n * 10 ^ places + rest, -places⟩ := by
  have hlength := length_padded hplaces hrest
  have hne : padded places rest ≠ [] := List.ne_nil_of_length_pos (by omega)
  rw [readUnsigned?, split?_point (fun _ => isDecimal_of_mem_write)
    (fun _ => isDecimal_of_mem_padded), Option.bind_some, if_pos (isStrict_write n hne)]
  simp only [Numeral.toDecimal, Numeral.shift, Option.getD_some, decimalValue_append, decimalValue_write,
    decimalValue_padded, hlength, zero_sub]

/-- A numeral begins with a digit, so it is not taken for a negative one. -/
theorem readLiteral?_write (n : Nat) (rest : List Char) :
    readLiteral? (write 10 n ++ rest) = readUnsigned? false (write 10 n ++ rest) := by
  have hne : write 10 n ≠ [] := Nat.toDigits_ne_nil
  obtain ⟨first, digits, hwrite⟩ := List.exists_cons_of_ne_nil hne
  have hdigit : isDecimal first = true := isDecimal_of_mem_write (hwrite ▸ List.mem_cons_self)
  rw [hwrite, List.cons_append, readLiteral?]
  intro tail heq
  rw [(List.cons.inj heq).1] at hdigit
  exact absurd hdigit (by decide)

/-- The literal of a sign and a number of units of the last place. -/
def fixedLiteral (negative : Bool) (units : Nat) : List Char :=
  (if negative then ['-'] else []) ++ write 10 (units / 10 ^ fixedPlaces) ++
    '.' :: padded fixedPlaces (units % 10 ^ fixedPlaces)

theorem readLiteral?_fixedLiteral (negative : Bool) (units : Nat) :
    readLiteral? (fixedLiteral negative units) = some ⟨negative, units, -fixedPlaces⟩ := by
  have hrest : units % 10 ^ fixedPlaces < 10 ^ fixedPlaces := Nat.mod_lt units (by decide)
  have hread := readUnsigned?_point negative (units / 10 ^ fixedPlaces) (by decide) hrest
  rw [Nat.div_add_mod'] at hread
  cases negative with
  | true => exact hread
  | false => exact (readLiteral?_write _ _).trans hread

theorem mem_fixedLiteral {negative : Bool} {units : Nat} {c : Char}
    (h : c ∈ fixedLiteral negative units) : c = '-' ∨ c = '.' ∨ isDecimal c = true := by
  rcases List.mem_append.mp h with hfront | hback
  · rcases List.mem_append.mp hfront with hsign | hdigit
    · left
      cases negative with
      | true => exact List.mem_singleton.mp hsign
      | false => exact absurd hsign List.not_mem_nil
    · exact .inr (.inr (isDecimal_of_mem_write hdigit))
  · rcases List.mem_cons.mp hback with hpoint | hdigit
    · exact .inr (.inl hpoint)
    · exact .inr (.inr (isDecimal_of_mem_padded hdigit))

/-! ## The nearest decimal -/

/-- A decimal is the one with so many places that is nearest to a number, an even one if two are. -/
structure Decimal.IsNearest (d : Decimal) (places : Nat) (x : ℚ) : Prop where
  exponent : d.exponent = -places
  near : |d.value - x| ≤ 1 / (2 * 10 ^ places)
  even : |d.value - x| = 1 / (2 * 10 ^ places) → d.coefficient % 2 = 0

/-- A rounded quotient is a half at most from the quotient, and even if it is as far as that. -/
theorem abs_roundHalfEven_sub (num : Nat) {den : Nat} (h : 0 < den) :
    |(roundHalfEven num den : ℚ) - num / den| ≤ 1 / 2 ∧
      (|(roundHalfEven num den : ℚ) - num / den| = 1 / 2 → roundHalfEven num den % 2 = 0) := by
  obtain ⟨hbelow, habove⟩ := roundHalfEven_near num h
  have hden : (0 : ℚ) < den := Nat.cast_pos.mpr h
  have hsub : (roundHalfEven num den : ℚ) - num / den =
      (den * roundHalfEven num den - num) / den := by
    field_simp
  have hbelow : (2 * num : ℚ) ≤ 2 * (den * roundHalfEven num den) + den := by exact_mod_cast hbelow
  have habove : (2 * (den * roundHalfEven num den) : ℚ) ≤ 2 * num + den := by exact_mod_cast habove
  rw [hsub, abs_div, abs_of_pos hden, div_le_iff₀ hden, div_eq_iff hden.ne']
  refine ⟨abs_le.mpr ⟨by linarith, by linarith⟩, fun hhalf => roundHalfEven_even h ?_⟩
  rcases (abs_eq (by positivity)).mp hhalf with heq | heq
  · right
    have heq : (2 * (den * roundHalfEven num den) : ℚ) = 2 * num + den := by linarith
    exact_mod_cast heq
  · left
    have heq : (2 * num : ℚ) = 2 * (den * roundHalfEven num den) + den := by linarith
    exact_mod_cast heq

theorem abs_signedValue (negative : Bool) {magnitude : ℚ} (h : 0 ≤ magnitude) :
    |signedValue negative magnitude| = magnitude := by
  cases negative with
  | true => rw [signedValue, if_pos rfl, abs_neg, abs_of_nonneg h]
  | false => exact abs_of_nonneg h

theorem Decimal.abs_value (d : Decimal) : |d.value| = d.coefficient * 10 ^ d.exponent :=
  abs_signedValue d.negative (by positivity)

/-- Exactly the numbers of half a unit of the last place or less have zero as their decimal. -/
theorem Decimal.IsNearest.value_eq_zero_iff {d : Decimal} {places : Nat} {x : ℚ}
    (h : d.IsNearest places x) : d.value = 0 ↔ |x| ≤ 1 / (2 * 10 ^ places) := by
  have hunit : (0 : ℚ) < 10 ^ places := by positivity
  have hhalf : (1 : ℚ) / (2 * 10 ^ places) = (10 ^ places)⁻¹ / 2 := by field_simp
  constructor
  · intro hzero
    have hnear := h.near
    rwa [hzero, zero_sub, abs_neg] at hnear
  · intro hx
    have habs : |d.value| = d.coefficient * (10 ^ places)⁻¹ := by
      rw [d.abs_value, h.exponent, zpow_neg, zpow_natCast]
    have hapart : |d.value| - |x| ≤ |d.value - x| := abs_sub_abs_le_abs_sub _ _
    have hnear := h.near
    have heven := h.even
    have hinv : (0 : ℚ) < (10 ^ places)⁻¹ := inv_pos.mpr hunit
    rw [hhalf] at hx hnear heven
    -- The decimal is one unit at most; one unit would be half a unit away, and one is not even.
    have hle : d.coefficient ≤ 1 := by
      have hunits : d.coefficient * (10 ^ places : ℚ)⁻¹ ≤ 1 * (10 ^ places)⁻¹ := by linarith
      exact_mod_cast le_of_mul_le_mul_right hunits hinv
    have hne : d.coefficient ≠ 1 := by
      intro hone
      rw [hone, Nat.cast_one, one_mul] at habs
      have hodd := heven (by linarith)
      omega
    have hzero : d.coefficient = 0 := by omega
    rw [← abs_eq_zero, habs, hzero, Nat.cast_zero, zero_mul]

theorem abs_signedValue_sub (negative : Bool) (a b : ℚ) :
    |signedValue negative a - signedValue negative b| = |a - b| := by
  cases negative with
  | true => rw [signedValue, signedValue, if_pos rfl, if_pos rfl, neg_sub_neg, abs_sub_comm]
  | false => rfl

/-- The quotient that is rounded is the magnitude in units of the last place. -/
theorem fixedUnits_quotient (coefficient : Nat) (exponent : ℤ) :
    ((coefficient * 2 ^ exponent.toNat * 10 ^ fixedPlaces : Nat) : ℚ) /
        (2 ^ (-exponent).toNat : Nat) =
      coefficient * 2 ^ exponent * 10 ^ fixedPlaces := by
  have hpower : (2 : ℚ) ^ exponent.toNat / 2 ^ (-exponent).toNat = 2 ^ exponent := by
    rw [← zpow_natCast, ← zpow_natCast, ← zpow_sub₀ two_ne_zero]
    congr 1
    omega
  push_cast
  rw [← hpower]
  ring

/-- The units that are written make up the decimal that is nearest to the number. -/
theorem isNearest_fixedUnits (negative : Bool) (coefficient : Nat) (exponent : ℤ) :
    Decimal.IsNearest ⟨negative, fixedUnits coefficient exponent, -fixedPlaces⟩ fixedPlaces
      (signedValue negative (coefficient * 2 ^ exponent)) := by
  obtain ⟨hnear, heven⟩ := abs_roundHalfEven_sub
    (coefficient * 2 ^ exponent.toNat * 10 ^ fixedPlaces) (Nat.two_pow_pos (-exponent).toNat)
  rw [fixedUnits_quotient] at hnear heven
  have hunit : (0 : ℚ) < 10 ^ fixedPlaces := by positivity
  -- In units of the last place the distance is that of the rounding.
  have hdistance : |Decimal.value ⟨negative, fixedUnits coefficient exponent, -fixedPlaces⟩ -
      signedValue negative (coefficient * 2 ^ exponent)| =
        |(fixedUnits coefficient exponent : ℚ) - coefficient * 2 ^ exponent * 10 ^ fixedPlaces| /
          10 ^ fixedPlaces := by
    rw [Decimal.value, abs_signedValue_sub, zpow_neg, zpow_natCast, eq_div_iff hunit.ne',
      ← abs_of_pos hunit, ← abs_mul, abs_of_pos hunit, sub_mul, inv_mul_cancel_right₀ hunit.ne']
  have hhalf : (1 : ℚ) / (2 * 10 ^ fixedPlaces) = 1 / 2 / 10 ^ fixedPlaces := by
    rw [div_div]
  refine ⟨rfl, ?_, fun heq => heven ?_⟩
  · rw [hdistance, hhalf, div_le_div_iff_of_pos_right hunit]
    exact hnear
  · rw [hdistance, hhalf, div_left_inj' hunit.ne'] at heq
    exact heq

namespace Floating

variable {f : Format} {x : Floating f}

theorem value?_eq_some_iff {value : ℚ} : x.value? = some value ↔
    ∃ coefficient exponent, x.datum = .finite x.negative coefficient exponent ∧
      value = signedValue x.negative (coefficient * 2 ^ exponent) := by
  rw [value?, datum]
  split_ifs with hspecial hfraction hsmall
  · simp
  · simp
  · simp [eq_comm]
  · simp [eq_comm]

theorem value?_of_datum {negative : Bool} {coefficient : Nat} {exponent : ℤ}
    (h : x.datum = .finite negative coefficient exponent) :
    x.value? = some (signedValue negative (coefficient * 2 ^ exponent)) := by
  rw [value?, h]

theorem toList_fixed {negative : Bool} {coefficient : Nat} {exponent : ℤ}
    (h : x.datum = .finite negative coefficient exponent) :
    x.fixed.toList = fixedLiteral negative (fixedUnits coefficient exponent) := by
  rw [fixed, h]
  exact String.toList_ofList

/-- Nothing that separates numbers is part of one. -/
theorem ne_comma_of_mem_fixed {c : Char} (h : c ∈ x.fixed.toList) : c ≠ ',' := by
  rintro rfl
  rw [fixed] at h
  split at h
  · exact absurd h (by decide)
  · split at h <;> exact absurd h (by decide)
  · rw [String.toList_ofList] at h
    rcases mem_fixedLiteral h with hsign | hpoint | hdigit
    · exact absurd hsign (by decide)
    · exact absurd hpoint (by decide)
    · exact absurd hdigit (by decide)

/-- What is written of a finite number denotes the decimal with six places that is nearest to it,
with its sign. -/
theorem fixed_denotes {value : ℚ} (h : x.value? = some value) :
    ∃ d, readLiteral? x.fixed.toList = some d ∧ d.IsNearest fixedPlaces value ∧
      d.negative = x.negative := by
  obtain ⟨coefficient, exponent, hdatum, rfl⟩ := value?_eq_some_iff.mp h
  refine ⟨_, ?_, isNearest_fixedUnits x.negative coefficient exponent, rfl⟩
  rw [toList_fixed hdatum, readLiteral?_fixedLiteral]

end Floating

end CanTables.Numeric
