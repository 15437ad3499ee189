import CanTables.Proofs.Emit.Factors
import CanTables.Proofs.Tables.Fit
import CanTables.Proofs.Tables.StateIndex
import Mathlib.Tactic.NormNum

/-!
# CanTables.Proofs.Tables.Scaling — what is left of the factor of a signal

Both languages have the same literal for the factor of a signal row, and it denotes the decimal with
six places that is nearest to the factor (`Tables.factor_written`).  So the factor survives exactly
if it is more than half a millionth; a signal that is scaled by less is left with the factor zero,
without a report (`Catalog.not_forall_factor_ne_zero`).
-/

namespace CanTables

open Emit Numeric

namespace Tables

/-- The literal that a language has for the factor of the signal row at a position of the signal
table of a set at a position.  As records the rows of all sets stand one behind the other. -/
def factorLiteral? (t : Tables) (i k : Nat) : Target → Option (List Char)
  | .cpp =>
    ((Firmware.rowGroups (Firmware.signals t))[i]?.bind fun rows => rows[k]?).bind Firmware.factor?
  | .python =>
    (Script.signalRecords (Script.signals t))[t.before i SetTables.signals + k]?.bind
      (Script.textOf? "factor")

variable {t : Tables} {i k : Nat} {set : SetTables} (hset : t.sets[i]? = some set)
  {row : SignalRow} (hrow : set.signals[k]? = some row)
include hset hrow

/-- Both languages write the factor of a row in the same way. -/
theorem factorLiteral?_eq (target : Target) :
    t.factorLiteral? i k target = some row.signal.factor.fixed.toList := by
  cases target with
  | cpp =>
    rw [factorLiteral?, Firmware.rowGroups_signals, List.getElem?_map, hset, Option.map_some,
      Option.bind_some, List.getElem?_map, hrow, Option.map_some, Option.bind_some,
      Firmware.factor?_signalLine]
  | python =>
    have hbefore : t.before i SetTables.signals = t.before i fun s =>
        s.signals.map fun row => (Script.signalEntries s row).map Script.entryLine := by
      simp only [before, List.length_flatMap, List.length_map]
    have hrecord : (set.signals.map fun row =>
        (Script.signalEntries set row).map Script.entryLine)[k]? =
          some ((Script.signalEntries set row).map Script.entryLine) := by
      rw [List.getElem?_map, hrow, Option.map_some]
    rw [factorLiteral?, Script.signalRecords_signals, hbefore,
      flatMap_getElem?_before hset hrecord, Option.bind_some, Script.textOf?_factor]

/-- Both languages write the same decimal for the factor of a signal row: the one with six places
that is nearest to the factor, with its sign.  It is zero exactly if the factor is half a unit of the
last place or less. -/
theorem factor_written {factor : ℚ} (hfactor : row.signal.factor.value? = some factor) :
    ∃ written : Decimal,
      (∀ target, (t.factorLiteral? i k target).bind readLiteral? = some written) ∧
        written.IsNearest fixedPlaces factor ∧ written.negative = row.signal.factor.negative ∧
          (written.value = 0 ↔ |factor| ≤ 1 / (2 * 10 ^ fixedPlaces)) := by
  obtain ⟨written, hread, hnearest, hsign⟩ := Floating.fixed_denotes hfactor
  refine ⟨written, fun target => ?_, hnearest, hsign, hnearest.value_eq_zero_iff⟩
  rw [factorLiteral?_eq hset hrow target, Option.bind_some, hread]

end Tables

namespace Catalog

/-! ## A signal of ten millionths -/

/-- A set with one message, which has a signal for each of some factors. -/
def scaledBy (factors : List (String × String)) : Catalog := .ofFiles [
  ("set.json", objectText [("name", "\"car\""),
    ("buses", objectText [("hs", objectText [("speed", "500000"), ("controller", "1")])]),
    ("messages", objectText [("0x100", objectText [("bus", "\"hs\""),
      ("signals", objectText (factors.map fun entry =>
        (entry.1, objectText [("bit_position", "0"), ("bit_size", "8"),
          ("factor", entry.2)])))])])])]

/-- A signal in ten millionths and one in quarters. -/
def fineAndCoarse : Catalog := scaledBy [("latitude", "1e-7"), ("level", "0.25")]

/-- The double that is nearest to a ten millionth. -/
def tenMillionth : ℚ := 7555786372591432 * 2 ^ (-76 : ℤ)

theorem tenMillionth_ne_zero : tenMillionth ≠ 0 := by norm_num [tenMillionth]

theorem abs_tenMillionth_le : |tenMillionth| ≤ 1 / (2 * 10 ^ fixedPlaces) := by
  norm_num [tenMillionth, fixedPlaces]

theorem compiled_fineAndCoarse : ∃ g sets tables extra set fine coarse,
    (fineAndCoarse.compile .usual ["set.json"]).outcome = .ok g ∧
      fineAndCoarse.Compiled .usual ["set.json"] g sets tables extra ∧
      tables.sets[0]? = some set ∧ set.signals[0]? = some fine ∧ set.signals[1]? = some coarse ∧
      fine.signal.factor.value? = some tenMillionth ∧
      coarse.signal.factor.value? = some (1 / 4) := by
  have hcompile : (fineAndCoarse.compile .usual ["set.json"]).outcome.toOption.any
      (fun _ => true) = true := by
    decide +kernel
  have hany : (fineAndCoarse.assemble .usual "set.json").outcome.toOption.any (fun s =>
      (Tables.ofSets [s]).outcome.toOption.any fun tables => tables.sets[0]?.any fun t =>
        t.signals.map (fun row => row.signal.factor.datum) =
          [.finite false 7555786372591432 (-76), .finite false 4503599627370496 (-54)]) = true := by
    decide +kernel
  obtain ⟨g, hg, -⟩ := Except.exists_of_any_toOption hcompile
  obtain ⟨sets, tables, extra, hcompiled⟩ := compiled_of_compile hg
  obtain ⟨s, set, -, hset, hfactors⟩ := hcompiled.exists_single hany
  have hfactors := of_decide_eq_true hfactors
  simp only [List.map_eq_cons_iff, List.map_eq_nil_iff] at hfactors
  obtain ⟨fine, _, hsignals, hfine, coarse, _, rfl, hcoarse, rfl⟩ := hfactors
  have hquarter : signedValue false (4503599627370496 * 2 ^ (-54 : ℤ)) = 1 / 4 := by
    norm_num [signedValue]
  refine ⟨g, sets, tables, extra, set, fine, coarse, hg, hcompiled, hset, ?_, ?_,
    Floating.value?_of_datum hfine, (Floating.value?_of_datum hcoarse).trans ?_⟩
  · rw [hsignals]; rfl
  · rw [hsignals]; rfl
  · exact congrArg some hquarter

end Catalog

namespace Tables

/-- The quarters are written, and of the ten millionths nothing is left. -/
theorem factor_written_fineAndCoarse : ∃ (t : Tables) (set : SetTables) (fine coarse : SignalRow)
    (small large : ℚ) (zero quarter : Decimal),
    (t.sets[0]? = some set ∧ set.signals[0]? = some fine ∧ set.signals[1]? = some coarse ∧
      fine.signal.factor.value? = some small ∧ coarse.signal.factor.value? = some large) ∧
        (∀ target, (t.factorLiteral? 0 0 target).bind readLiteral? = some zero) ∧
        (∀ target, (t.factorLiteral? 0 1 target).bind readLiteral? = some quarter) ∧
          small ≠ 0 ∧ zero.value = 0 ∧ large = 1 / 4 ∧ quarter.value ≠ 0 := by
  obtain ⟨-, -, t, -, set, fine, coarse, -, -, hset, hfirst, hsecond, hfine, hcoarse⟩ :=
    Catalog.compiled_fineAndCoarse
  obtain ⟨zero, hzero, -, -, hzeroIff⟩ := factor_written hset hfirst hfine
  obtain ⟨quarter, hquarter, -, -, hquarterIff⟩ := factor_written hset hsecond hcoarse
  refine ⟨t, set, fine, coarse, _, _, zero, quarter, ⟨hset, hfirst, hsecond, hfine, hcoarse⟩, hzero,
    hquarter, Catalog.tenMillionth_ne_zero, hzeroIff.mpr Catalog.abs_tenMillionth_le, rfl,
    mt hquarterIff.mp ?_⟩
  norm_num [fixedPlaces]

end Tables

/-- A scaled signal can be left without its scale. -/
theorem Catalog.not_forall_factor_ne_zero : ¬ ∀ (c : Catalog) (settings : Settings)
    (names : List String) (g : Generated) (sets : List MessageSet) (tables : Tables)
    (extra : List String), (c.compile settings names).outcome = .ok g →
      c.Compiled settings names g sets tables extra → ∀ (i k : Nat) (set : SetTables)
        (row : SignalRow) (factor : ℚ), tables.sets[i]? = some set → set.signals[k]? = some row →
          row.signal.factor.value? = some factor → factor ≠ 0 →
            ∃ written, (tables.factorLiteral? i k settings.target).bind readLiteral? = some written ∧
              written.value ≠ 0 := by
  intro hall
  obtain ⟨g, sets, t, extra, set, fine, coarse, hg, hcompiled, hset, hfirst, -, hfine, -⟩ :=
    compiled_fineAndCoarse
  obtain ⟨written, hwritten, hne⟩ := hall _ _ _ g sets t extra hg hcompiled 0 0 set fine _ hset
    hfirst hfine tenMillionth_ne_zero
  obtain ⟨zero, hread, hnearest, -⟩ := Floating.fixed_denotes hfine
  rw [Tables.factorLiteral?_eq hset hfirst, Option.bind_some, hread] at hwritten
  obtain rfl := Option.some.inj hwritten
  exact hne (hnearest.value_eq_zero_iff.mpr abs_tenMillionth_le)

end CanTables
