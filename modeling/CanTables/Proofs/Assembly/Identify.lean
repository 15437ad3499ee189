import CanTables.Proofs.Assembly.Keys
import CanTables.Proofs.Text.Numeral

/-!
# CanTables.Proofs.Assembly.Identify — the grammar of identifiers

`Identifier.Spells` says which texts spell which numbers: between blanks stand the mark of a base, at
most one plus sign and a numeral in that base.  The rules do not mention how a text is read, and a
text is read by them (`Identifier.value?_eq_some_iff`): no digit can be taken for the letter of a
mark, and neither blanks nor a sign can be part of a numeral.

`identify_iff_spells`: the texts that spell a number of 32 bits are the identifiers, and the fault
of any other text shows that text.
-/

namespace CanTables

open Text

namespace Identifier

/-- What stands in front of a numeral in a base: nothing where it is decimal, else the mark of the
base, in either case. -/
inductive Announces : List Char → Nat → Prop where
  | decimal : Announces [] 10
  | hexadecimal {letter : Char} (h : letter = 'x' ∨ letter = 'X') : Announces ['0', letter] 16
  | octal {letter : Char} (h : letter = 'o' ∨ letter = 'O') : Announces ['0', letter] 8
  | binary {letter : Char} (h : letter = 'b' ∨ letter = 'B') : Announces ['0', letter] 2

/-- A text spells a number: between blanks stand the mark of a base, one plus sign at most, and a
numeral in that base. -/
inductive Spells (text : String) (n : Nat) : Prop where
  | intro {before mark sign digits after : List Char} {base : Nat}
      (split : text.toList = before ++ (mark ++ sign ++ digits) ++ after)
      (before_blank : ∀ c ∈ before, isBlank c = true)
      (after_blank : ∀ c ∈ after, isBlank c = true) (announces : Announces mark base)
      (plus : sign = [] ∨ sign = ['+']) (numeral : Digits.IsNumeral base digits n)

theorem Announces.base_le {mark : List Char} {base : Nat} (h : Announces mark base) :
    base ≤ 16 := by
  cases h <;> decide

theorem Announces.not_blank {mark : List Char} {base : Nat} (h : Announces mark base) :
    ∀ c ∈ mark, isBlank c = false := by
  have hmark : mark.all (fun c => !isBlank c) = true := by
    rcases h with _ | ⟨rfl | rfl⟩ | ⟨rfl | rfl⟩ | ⟨rfl | rfl⟩ <;> rfl
  intro c hc
  simpa using List.all_eq_true.mp hmark c hc

/-- The mark that is split off announces the base. -/
theorem exists_announces (cs : List Char) :
    ∃ mark, Announces mark (splitBase cs).1 ∧ cs = mark ++ (splitBase cs).2 := by
  unfold splitBase
  split
  · next letter rest =>
    split
    · next h => exact ⟨['0', letter], .hexadecimal h, rfl⟩
    split
    · next h => exact ⟨['0', letter], .octal h, rfl⟩
    split
    · next h => exact ⟨['0', letter], .binary h, rfl⟩
    · exact ⟨[], .decimal, rfl⟩
  · exact ⟨[], .decimal, rfl⟩

theorem exists_sign (cs : List Char) :
    ∃ sign, (sign = [] ∨ sign = ['+']) ∧ cs = sign ++ dropPlus cs := by
  unfold dropPlus
  split
  · exact ⟨['+'], .inr rfl, rfl⟩
  · exact ⟨[], .inl rfl, rfl⟩

/-- No digit of a base is a letter that announces one. -/
theorem splitBase_append {mark sign digits : List Char} {base n : Nat}
    (announces : Announces mark base) (plus : sign = [] ∨ sign = ['+'])
    (numeral : Digits.IsNumeral base digits n) :
    splitBase (mark ++ sign ++ digits) = (base, sign ++ digits) := by
  cases announces with
  | decimal =>
    rcases plus with rfl | rfl
    · show splitBase digits = (10, digits)
      unfold splitBase
      split
      · next letter rest =>
        -- A numeral may begin with a zero, but no letter of a mark is a decimal digit.
        obtain ⟨-, values, hvalues, -⟩ := numeral
        have hletter : letter ∈ '0' :: letter :: rest := List.mem_cons_of_mem _ List.mem_cons_self
        obtain ⟨value, -, hlt, hdigit⟩ := Positions.exists_right_of_forall₂ hvalues hletter
        have hnot : ¬ (letter = 'x' ∨ letter = 'X') ∧ ¬ (letter = 'o' ∨ letter = 'O') ∧
            ¬ (letter = 'b' ∨ letter = 'B') := by
          interval_cases value <;> rcases hdigit with rfl | rfl <;> decide
        obtain ⟨hx, ho, hb⟩ := hnot
        rw [if_neg hx, if_neg ho, if_neg hb]
      · rfl
    · rfl
  | hexadecimal h => rcases h with rfl | rfl <;> rfl
  | octal h => rcases h with rfl | rfl <;> rfl
  | binary h => rcases h with rfl | rfl <;> rfl

theorem dropPlus_append {sign digits : List Char} {base n : Nat} (hbase : base ≤ 16)
    (plus : sign = [] ∨ sign = ['+']) (numeral : Digits.IsNumeral base digits n) :
    dropPlus (sign ++ digits) = digits := by
  rcases plus with rfl | rfl
  · show dropPlus digits = digits
    unfold dropPlus
    split
    · exact absurd rfl (numeral.forall_apart hbase '+' List.mem_cons_self).2
    · rfl
  · rfl

/-- What is read is what the rules say. -/
theorem value?_eq_some_iff {text : String} {n : Nat} :
    value? text.toList = some n ↔ Spells text n := by
  constructor
  · intro h
    obtain ⟨before, after, htext, hbefore, hafter⟩ := exists_eq_append_trim text.toList
    obtain ⟨mark, hmark, htrim⟩ := exists_announces (trim text.toList)
    obtain ⟨sign, hsign, hrest⟩ := exists_sign (splitBase (trim text.toList)).2
    have hread : Digits.read? (splitBase (trim text.toList)).1
        (dropPlus (splitBase (trim text.toList)).2) = some n := h
    refine .intro ?_ hbefore hafter hmark hsign ((Digits.read?_eq_some_iff hmark.base_le).mp hread)
    rw [List.append_assoc mark, ← hrest, ← htrim]
    exact htext
  · rintro @⟨before, mark, sign, digits, after, base, split, hbefore, hafter, announces, plus,
      numeral⟩
    have hdigits := numeral.forall_apart announces.base_le
    have hcore : ∀ c ∈ mark ++ sign ++ digits, isBlank c = false := by
      intro c hc
      rcases List.mem_append.mp hc with hc | hc
      · rcases List.mem_append.mp hc with hc | hc
        · exact announces.not_blank c hc
        · rcases plus with rfl | rfl
          · cases hc
          · rw [List.mem_singleton.mp hc]
            decide
      · exact (hdigits c hc).1
    have htrim : trim text.toList = mark ++ sign ++ digits := by
      rw [split]
      exact trim_append hbefore hafter hcore (List.append_ne_nil_of_right_ne_nil _ numeral.1)
    show Digits.read? (splitBase (trim text.toList)).1
      (dropPlus (splitBase (trim text.toList)).2) = some n
    rw [htrim, splitBase_append announces plus numeral]
    show Digits.read? base (dropPlus (sign ++ digits)) = some n
    rw [dropPlus_append announces.base_le plus numeral]
    exact (Digits.read?_eq_some_iff announces.base_le).mpr numeral

theorem ofNat?_eq_some_iff {n : Nat} {id : UInt32} : ofNat? n = some id ↔ id.toNat = n := by
  unfold ofNat?
  constructor
  · intro h
    split at h
    · next hlt =>
      cases h
      exact UInt32.toNat_ofNat_of_lt' hlt
    · cases h
  · rintro rfl
    rw [if_pos id.toNat_lt, UInt32.ofNat_toNat]

/-- A text spells an identifier exactly if it spells its number. -/
theorem parse?_eq_some_iff {text : String} {id : UInt32} :
    parse? text = some id ↔ Spells text id.toNat := by
  rw [parse?, Option.bind_eq_some_iff, ← value?_eq_some_iff]
  constructor
  · rintro ⟨n, hn, hid⟩
    rwa [ofNat?_eq_some_iff.mp hid]
  · intro h
    exact ⟨id.toNat, h, ofNat?_eq_some_iff.mpr rfl⟩

/-- The sign stands behind the mark, and a no-break space is a blank. -/
example : parse? "\u00A0 0X+00fF\t" = some 255 := by decide +kernel

end Identifier

theorem identify_eq_error_iff {text : String} {fault : Fault} :
    identify text = .error fault ↔ Identifier.parse? text = none ∧ fault = .notIdentifier text := by
  unfold identify
  cases Identifier.parse? text with
  | none => simp [eq_comm]
  | some id => simp

/-- Exactly the texts that spell a number of 32 bits are identifiers, each for its number; the fault
of any other text shows it as it is; and the canonical spelling of an identifier spells it. -/
theorem identify_iff_spells :
    (∀ text n, (∃ id, identify text = .ok id ∧ id.toNat = n) ↔
      Identifier.Spells text n ∧ n < 2 ^ 32) ∧
    (∀ text fault, identify text = .error fault ↔
      (¬ ∃ n, Identifier.Spells text n ∧ n < 2 ^ 32) ∧ fault = .notIdentifier text ∧
        fault.message = "'" ++ text ++ "' is not a valid integer identifier") ∧
    ∀ id, identify (Identifier.key id) = .ok id := by
  have hspells : ∀ text n, (∃ id, identify text = .ok id ∧ id.toNat = n) ↔
      Identifier.Spells text n ∧ n < 2 ^ 32 := by
    intro text n
    simp only [identify_eq_ok_iff, Identifier.parse?_eq_some_iff]
    constructor
    · rintro ⟨id, hid, rfl⟩
      exact ⟨hid, id.toNat_lt⟩
    · rintro ⟨h, hlt⟩
      have hn : (UInt32.ofNat n).toNat = n := UInt32.toNat_ofNat_of_lt' hlt
      exact ⟨.ofNat n, by rwa [hn], hn⟩
  refine ⟨hspells, fun text fault => ?_, fun id => ?_⟩
  · simp only [← hspells]
    rw [identify_eq_error_iff, Option.eq_none_iff_forall_ne_some]
    constructor
    · rintro ⟨hnone, rfl⟩
      refine ⟨?_, rfl, rfl⟩
      rintro ⟨n, id, hid, -⟩
      exact hnone id (identify_eq_ok_iff.mp hid)
    · rintro ⟨hnone, hfault, -⟩
      exact ⟨fun id hid => hnone ⟨_, id, identify_eq_ok_iff.mpr hid, rfl⟩, hfault⟩
  · exact identify_eq_ok_iff.mpr (Identifier.parse?_key id)

end CanTables
