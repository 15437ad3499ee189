import CanTables.Text.Literal
import Mathlib.Tactic.IntervalCases

/-!
# CanTables.Proofs.Text.Literal — literals read back

What `Literal.quote` writes denotes the text that was quoted, whatever follows the literal
(`read_quote`).  An escaped character is read back on its own: its octal escape has all three
digits, so reading stops there even if a digit follows.
-/

namespace CanTables.Text.Literal

theorem octalDigit {n : Nat} (h : n < 8) :
    letterEscape? (Nat.digitChar n) = none ∧ Digits.valueIn? 8 (Nat.digitChar n) = some n := by
  interval_cases n <;> decide

theorem readFrom_octal {c : Char} (h : c.toNat < 128) (rest : List Char) :
    readFrom .plain ('\\' :: Nat.digitChar (c.toNat / 64) :: Nat.digitChar (c.toNat / 8 % 8) ::
      Nat.digitChar (c.toNat % 8) :: rest) = keep c (readFrom .plain rest) := by
  obtain ⟨hletter, hfirst⟩ := octalDigit (n := c.toNat / 64) (by omega)
  have hsecond := (octalDigit (n := c.toNat / 8 % 8) (by omega)).2
  have hthird := (octalDigit (n := c.toNat % 8) (by omega)).2
  have hvalue : (c.toNat / 64 * 8 + c.toNat / 8 % 8) * 8 + c.toNat % 8 = c.toNat := by omega
  simp [readFrom, hletter, hfirst, hsecond, hthird, hvalue]

/-- An escaped character is read back. -/
theorem readFrom_escape (c : Char) (rest : List Char) :
    readFrom .plain (escape c ++ rest) = keep c (readFrom .plain rest) := by
  -- The cases of `escape`, in its order.
  by_cases hquote : c = '"'
  · subst hquote
    rfl
  by_cases hslash : c = '\\'
  · subst hslash
    rfl
  by_cases hline : c = '\n'
  · subst hline
    rfl
  by_cases hreturn : c = '\r'
  · subst hreturn
    rfl
  by_cases htab : c = '\t'
  · subst htab
    rfl
  simp only [escape, hquote, hslash, hline, hreturn, htab, if_false]
  split
  · next hcontrol => exact readFrom_octal (by omega) rest
  · simp [readFrom, hquote, hslash]

/-- A literal denotes the text that was quoted. -/
theorem read_quoteChars (cs rest : List Char) : read (quoteChars cs ++ rest) = some (cs, rest) := by
  have hbody : readFrom .plain (cs.flatMap escape ++ '"' :: rest) = some (cs, rest) := by
    induction cs with
    | nil => rfl
    | cons c cs ih =>
      rw [List.flatMap_cons, List.append_assoc, readFrom_escape, ih]
      rfl
  rw [quoteChars, List.cons_append, List.append_assoc]
  exact hbody

theorem read_quote (text : String) (rest : List Char) :
    read ((quote text).toList ++ rest) = some (text.toList, rest) := by
  rw [quote, String.toList_ofList, read_quoteChars]

end CanTables.Text.Literal
