import CanTables.Text.Digits
import Mathlib.Data.List.Basic

/-!
# CanTables.Proofs.Text.Reading — reading a text from the front

An emitted line is read from its front: first a fixed text, then a number, and so on, each time with
what follows.  What `Digits.decimal` wrote is read back as the number that was written, provided
that the fixed text behind it does not begin with a digit (`natural?_decimal`, `integer?_decimal`).
-/

namespace CanTables.Text

open Digits

/-! ## Fixed texts -/

/-- What follows a fixed text at the front. -/
def after? (fixed : String) (cs : List Char) : Option (List Char) := fixed.toList.isPrefixOf? cs

@[simp]
theorem after?_append (fixed : String) (rest : List Char) :
    after? fixed (fixed.toList ++ rest) = some rest :=
  List.isPrefixOf?_eq_some_iff_append_eq.mpr rfl

theorem after?_eq_none {fixed : String} {cs : List Char} (h : ¬ fixed.toList <+: cs) :
    after? fixed cs = none := by
  cases hafter : after? fixed cs with
  | none => rfl
  | some rest => exact absurd ⟨rest, List.isPrefixOf?_eq_some_iff_append_eq.mp hafter⟩ h

/-! ## Numbers -/

/-- The number at the front of a text, and what follows it. -/
def natural? (cs : List Char) : Option (Nat × List Char) :=
  if (cs.takeWhile isDecimal).isEmpty then none
  else some (decimalValue (cs.takeWhile isDecimal), cs.dropWhile isDecimal)

/-- The integer at the front of a text, and what follows it. -/
def integer? : List Char → Option (Int × List Char)
  | '-' :: rest => (natural? rest).map fun found => (-found.1, found.2)
  | cs => (natural? cs).map fun found => (found.1, found.2)

theorem decimalValue_eq (cs : List Char) : decimalValue cs = Nat.ofDigitChars 10 cs 0 := by
  simp only [decimalValue, Nat.ofDigitChars, Nat.mul_comm]

theorem decimalValue_write (n : Nat) : decimalValue (write 10 n) = n := by
  rw [decimalValue_eq, write, Nat.ofDigitChars_ten_toDigits]

theorem isDecimal_of_mem_write {n : Nat} {c : Char} (h : c ∈ write 10 n) : isDecimal c = true :=
  Nat.isDigit_of_mem_toDigits (by omega) (by omega) h

theorem write_injective : Function.Injective (write 10) := by
  intro a b h
  rw [← decimalValue_write a, h, decimalValue_write]

/-- A number that was written is read back, if no digit follows. -/
theorem natural?_write (n : Nat) {rest : List Char} (h : ∀ c ∈ rest.head?, isDecimal c = false) :
    natural? (write 10 n ++ rest) = some (n, rest) := by
  have hne : write 10 n ≠ [] := Nat.toDigits_ne_nil
  -- Reading stops at once behind the numeral.
  have hstop : rest.takeWhile isDecimal = [] ∧ rest.dropWhile isDecimal = rest := by
    cases rest with
    | nil => exact ⟨rfl, rfl⟩
    | cons c rest => simp [h c rfl]
  have hdigits : ∀ c ∈ write 10 n, isDecimal c = true := fun c => isDecimal_of_mem_write
  simp only [natural?, List.takeWhile_append_of_pos hdigits, List.dropWhile_append_of_pos hdigits,
    hstop, List.append_nil, List.isEmpty_eq_false_iff.mpr hne, decimalValue_write]
  rfl

theorem toList_decimal_natCast (n : Nat) : (decimal (n : Int)).toList = write 10 n := by
  simp [decimal]

theorem decimal_natCast_inj {a b : Nat} : decimal (a : Int) = decimal (b : Int) ↔ a = b := by
  constructor
  · intro h
    have hlists := congrArg String.toList h
    rw [toList_decimal_natCast, toList_decimal_natCast] at hlists
    exact write_injective hlists
  · rintro rfl
    rfl

/-- A text begins, and not with a digit. -/
def stopsNumber (fixed : String) : Bool := fixed.toList.head?.any fun c => !isDecimal c

theorem isDecimal_of_stopsNumber {fixed : String} (h : stopsNumber fixed = true)
    (rest : List Char) : ∀ c ∈ (fixed.toList ++ rest).head?, isDecimal c = false := by
  rw [stopsNumber] at h
  cases hfixed : fixed.toList with
  | nil => simp [hfixed] at h
  | cons c cs =>
    rw [hfixed] at h
    simpa using h

variable {fixed : String} (h : stopsNumber fixed = true)
include h

theorem natural?_decimal (n : Nat) (rest : List Char) :
    natural? ((decimal (n : Int)).toList ++ (fixed.toList ++ rest)) =
      some (n, fixed.toList ++ rest) := by
  rw [toList_decimal_natCast]
  exact natural?_write n (isDecimal_of_stopsNumber h rest)

/-- No numeral begins with a minus sign, so a number without one is not read as negative. -/
theorem integer?_decimal (n : Int) (rest : List Char) :
    integer? ((decimal n).toList ++ (fixed.toList ++ rest)) = some (n, fixed.toList ++ rest) := by
  have hread := natural?_write n.natAbs (isDecimal_of_stopsNumber h rest)
  by_cases hn : n < 0
  · have hlist : (decimal n).toList = '-' :: write 10 n.natAbs := by simp [decimal, hn]
    rw [hlist, List.cons_append, integer?, hread, Option.map_some]
    congr 2
    omega
  · have hlist : (decimal n).toList = write 10 n.natAbs := by simp [decimal, hn]
    rw [hlist, integer?, hread, Option.map_some]
    · congr 2
      omega
    · intro tail heq
      cases hdigits : write 10 n.natAbs with
      | nil => exact Nat.toDigits_ne_nil hdigits
      | cons c digits =>
        rw [hdigits, List.cons_append, List.cons.injEq] at heq
        have hdecimal : isDecimal c = true :=
          isDecimal_of_mem_write (hdigits ▸ List.mem_cons_self)
        rw [heq.1] at hdecimal
        exact absurd hdecimal (by decide)

end CanTables.Text
