import CanTables.Proofs.Identifier
import CanTables.Proofs.Order.Positions
import Mathlib.Data.List.TakeWhile
import Mathlib.Data.Nat.Digits.Lemmas

/-!
# CanTables.Proofs.Text.Numeral — numerals by their digits

`Digits.IsNumeral` says which characters make up which number in a base, by the value of each digit
and its place.  The reader accepts exactly these, however long they are and however many zeros lead
them (`Digits.read?_eq_some_iff`).

Trimming takes blanks off both ends and nothing else (`exists_eq_append_trim`, `trim_append`).
-/

namespace CanTables

namespace Text.Digits

/-! ## Numerals -/

/-- A character is the digit for a number in a base, a letter in either case. -/
def IsDigit (base : Nat) (c : Char) (digit : Nat) : Prop :=
  digit < base ∧ (c = Nat.digitChar digit ∨ c = (Nat.digitChar digit).toUpper)

/-- One or more digits of a base, the first one the most significant, make up a number. -/
def IsNumeral (base : Nat) (cs : List Char) (n : Nat) : Prop :=
  cs ≠ [] ∧ ∃ digits, List.Forall₂ (IsDigit base) cs digits ∧ n = Nat.ofDigits base digits.reverse

theorem value?_eq_some_iff {c : Char} {digit : Nat} :
    value? c = some digit ↔ IsDigit 16 c digit := by
  unfold IsDigit
  constructor
  · intro h
    obtain ⟨n, hn⟩ : ∃ n, c.toNat = n := ⟨_, rfl⟩
    obtain rfl : c = Char.ofNat n := by rw [← hn, Char.ofNat_toNat]
    unfold value? at h
    simp only [Char.le_def, UInt32.le_iff_toNat_le, Char.toNat_val, hn] at h
    have hrange : 48 ≤ n ∧ n ≤ 57 ∨ 97 ≤ n ∧ n ≤ 102 ∨ 65 ≤ n ∧ n ≤ 70 := by
      split at h
      · next hc => exact .inl hc
      split at h
      · next hc => exact .inr (.inl hc)
      split at h
      · next hc => exact .inr (.inr hc)
      · cases h
    rcases hrange with ⟨hlo, hhi⟩ | ⟨hlo, hhi⟩ | ⟨hlo, hhi⟩ <;>
      interval_cases n <;> cases h <;> decide
  · rintro ⟨hlt, h⟩
    interval_cases digit <;> rcases h with rfl | rfl <;> rfl

theorem valueIn?_eq_some_iff {base : Nat} (hbase : base ≤ 16) {c : Char} {digit : Nat} :
    valueIn? base c = some digit ↔ IsDigit base c digit := by
  rw [valueIn?, Option.filter_eq_some_iff, value?_eq_some_iff, decide_eq_true_iff]
  constructor
  · rintro ⟨⟨-, hc⟩, hlt⟩
    exact ⟨hlt, hc⟩
  · rintro ⟨hlt, hc⟩
    exact ⟨⟨Nat.lt_of_lt_of_le hlt hbase, hc⟩, hlt⟩

theorem foldlM_shiftIn_eq_some_iff {base : Nat} (hbase : base ≤ 16) {cs : List Char}
    {start n : Nat} :
    cs.foldlM (shiftIn base) start = some n ↔ ∃ digits, List.Forall₂ (IsDigit base) cs digits ∧
      n = start * base ^ digits.length + Nat.ofDigits base digits.reverse := by
  induction cs generalizing start with
  | nil => simp [eq_comm]
  | cons c rest ih =>
    -- The digits behind a digit shift it by their number, also where something was read before.
    have hvalue : ∀ d (ds : List Nat), start * base ^ (d :: ds).length +
        Nat.ofDigits base (d :: ds).reverse =
          (start * base + d) * base ^ ds.length + Nat.ofDigits base ds.reverse := by
      intro d ds
      rw [List.reverse_cons, Nat.ofDigits_append, Nat.ofDigits_singleton, List.length_reverse,
        List.length_cons, Nat.pow_succ]
      ring
    rw [List.foldlM_cons, Option.bind_eq_bind, Option.bind_eq_some_iff]
    constructor
    · rintro ⟨next, hnext, h⟩
      obtain ⟨d, hd, rfl⟩ := Option.map_eq_some_iff.mp hnext
      obtain ⟨ds, hds, hn⟩ := ih.mp h
      exact ⟨d :: ds, .cons ((valueIn?_eq_some_iff hbase).mp hd) hds, by rw [hvalue, hn]⟩
    · rintro ⟨digits, hdigits, hn⟩
      obtain ⟨d, ds, hd, hds, rfl⟩ := List.forall₂_cons_left_iff.mp hdigits
      refine ⟨start * base + d, ?_, ih.mpr ⟨ds, hds, by rw [hn, hvalue]⟩⟩
      rw [shiftIn, (valueIn?_eq_some_iff hbase).mpr hd, Option.map_some]

/-- Exactly the numerals are read, each as its number. -/
theorem read?_eq_some_iff {base : Nat} (hbase : base ≤ 16) {cs : List Char} {n : Nat} :
    read? base cs = some n ↔ IsNumeral base cs n := by
  rw [read?, IsNumeral]
  cases cs with
  | nil => simp
  | cons c rest =>
    simp only [List.isEmpty_cons, Bool.false_eq_true, if_false, valueOf?, ne_eq,
      reduceCtorEq, not_false_eq_true, true_and, foldlM_shiftIn_eq_some_iff hbase, Nat.zero_mul,
      Nat.zero_add]

/-- A digit is neither a blank nor a sign. -/
theorem IsDigit.apart {base : Nat} (hbase : base ≤ 16) {c : Char} {digit : Nat}
    (h : IsDigit base c digit) : isBlank c = false ∧ c ≠ '+' := by
  obtain ⟨hlt, hc⟩ := h
  have hlt : digit < 16 := Nat.lt_of_lt_of_le hlt hbase
  interval_cases digit <;> rcases hc with rfl | rfl <;> decide

theorem IsNumeral.forall_apart {base : Nat} (hbase : base ≤ 16) {cs : List Char} {n : Nat}
    (h : IsNumeral base cs n) : ∀ c ∈ cs, isBlank c = false ∧ c ≠ '+' := by
  obtain ⟨-, digits, hdigits, -⟩ := h
  intro c hc
  obtain ⟨digit, -, hdigit⟩ := Positions.exists_right_of_forall₂ hdigits hc
  exact hdigit.apart hbase

end Text.Digits

/-! ## Blanks around a text -/

namespace Text

/-- What is trimmed off a text is blank. -/
theorem exists_eq_append_trim (cs : List Char) : ∃ before after, cs = before ++ trim cs ++ after ∧
    (∀ c ∈ before, isBlank c = true) ∧ ∀ c ∈ after, isBlank c = true := by
  refine ⟨cs.takeWhile isBlank, ((cs.dropWhile isBlank).reverse.takeWhile isBlank).reverse, ?_,
    fun c hc => List.mem_takeWhile_imp hc, fun c hc => ?_⟩
  · have hrest : trim cs ++ ((cs.dropWhile isBlank).reverse.takeWhile isBlank).reverse =
        cs.dropWhile isBlank := by
      rw [trim, ← List.reverse_append, List.takeWhile_append_dropWhile, List.reverse_reverse]
    rw [List.append_assoc, hrest, List.takeWhile_append_dropWhile]
  · exact List.mem_takeWhile_imp (List.mem_reverse.mp hc)

theorem trim_append {before core after : List Char} (hbefore : ∀ c ∈ before, isBlank c = true)
    (hafter : ∀ c ∈ after, isBlank c = true) (hcore : ∀ c ∈ core, isBlank c = false)
    (hne : core ≠ []) : trim (before ++ core ++ after) = core := by
  -- The first and the last character of the core are no blanks: here both passes stop.
  obtain ⟨first, rest, rfl⟩ := List.exists_cons_of_ne_nil hne
  obtain ⟨last, front, hlast⟩ : ∃ last front, (first :: rest).reverse = last :: front :=
    List.exists_cons_of_ne_nil (by simp)
  have hfirst : isBlank first = false := hcore first List.mem_cons_self
  have hlast' : isBlank last = false :=
    hcore last (List.mem_reverse.mp (hlast ▸ List.mem_cons_self))
  rw [trim, List.append_assoc, List.dropWhile_append_of_pos hbefore, List.cons_append,
    List.dropWhile_cons_of_neg (Bool.eq_false_iff.mp hfirst), ← List.cons_append,
    List.reverse_append,
    List.dropWhile_append_of_pos fun c hc => hafter c (List.mem_reverse.mp hc), hlast,
    List.dropWhile_cons_of_neg (Bool.eq_false_iff.mp hlast'), ← hlast, List.reverse_reverse]

end Text

end CanTables
