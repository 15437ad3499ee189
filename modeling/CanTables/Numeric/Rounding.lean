/-!
# CanTables.Numeric.Rounding — the nearest integer to a quotient

Every inexact number in this library comes from one place: a quotient of naturals is replaced by
the nearest natural, a half going to the even neighbour.  Binary floating point and fixed-place
decimals are both built on this operation.

Nothing here knows about formats, signs or text.
-/

namespace CanTables.Numeric

/-- The natural number nearest to `num / den`; a half goes to the even neighbour. -/
def roundHalfEven (num den : Nat) : Nat :=
  let below := num / den
  let rest := num % den
  if 2 * rest < den then below
  else if den < 2 * rest then below + 1
  else below + below % 2

/-- Rounding moves a quotient by at most half a unit. -/
theorem roundHalfEven_near (num : Nat) {den : Nat} (h : 0 < den) :
    2 * num ≤ 2 * (den * roundHalfEven num den) + den ∧
      2 * (den * roundHalfEven num den) ≤ 2 * num + den := by
  have split : den * (num / den) + num % den = num := Nat.div_add_mod num den
  have small : num % den < den := Nat.mod_lt _ h
  simp only [roundHalfEven]
  split
  · omega
  · split
    · rw [Nat.mul_add]; omega
    · rcases Nat.mod_two_eq_zero_or_one (num / den) with even | odd
      · rw [even, Nat.add_zero]; omega
      · rw [odd, Nat.mul_add]; omega

/-- A half is rounded to the even neighbour. -/
theorem roundHalfEven_even {num den : Nat} (h : 0 < den)
    (hhalf : 2 * num = 2 * (den * roundHalfEven num den) + den ∨
      2 * (den * roundHalfEven num den) = 2 * num + den) : roundHalfEven num den % 2 = 0 := by
  have split : den * (num / den) + num % den = num := Nat.div_add_mod num den
  have small : num % den < den := Nat.mod_lt _ h
  revert hhalf
  simp only [roundHalfEven]
  split
  · omega
  · split
    · rw [Nat.mul_add]
      omega
    · omega

end CanTables.Numeric
