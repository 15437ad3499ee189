import CanTables.Compile
import CanTables.Proofs.Journal
import CanTables.Proofs.MessageSet.Fit
import CanTables.Proofs.Order.Sorting
import CanTables.Proofs.Store.Files
import Mathlib.Data.List.Perm.Basic

/-!
# CanTables.Proofs.Tables.AnyOrder — sets that are compiled together, in any order

The position of a set among the others is written into every reference to one of its rows, and what
is counted, copied or reported is collected set by set.  Still the order in which sets are given
does not matter: they are put in the order of their names before anything else is done, and where
names differ that leaves one order only.

`Catalog.compile_of_perm`: the same source, or the same fault, for the sets in any order, and for
the names that they are assembled from in any order.
-/

namespace CanTables

open Sorting

/-- Sets with different names have one order. -/
theorem Tables.ordered_of_perm {sets sets' : List MessageSet} (perm : sets.Perm sets')
    (distinct : (sets.map MessageSet.name).Nodup) : ordered sets = ordered sets' :=
  sortBy_key_eq_of_perm Linear.of_lt MessageSet.name perm distinct

namespace Catalog

variable {c : Catalog} {settings : Settings}

theorem generate_of_perm {sets sets' : List MessageSet} (perm : sets.Perm sets')
    (distinct : (sets.map MessageSet.name).Nodup) :
    c.generate settings sets = c.generate settings sets' := by
  have htables : Tables.ofSets sets = Tables.ofSets sets' := by
    rw [Tables.ofSets, Tables.ofSets, Tables.ordered_of_perm perm distinct]
  rw [generate, generate, htables]

/-! ## Names of sets -/

/-- All sets pass exactly if each of them is fit. -/
theorem checkAll_eq_ok_iff {sets : List MessageSet} :
    (checkAll sets).outcome = .ok () ↔ ∀ s ∈ sets, s.isFit = true := by
  induction sets with
  | nil => exact ⟨fun _ _ hs => absurd hs List.not_mem_nil, fun _ => rfl⟩
  | cons s rest ih =>
    rw [checkAll, Run.bind_outcome_eq_ok_iff, List.forall_mem_cons, ← ih]
    constructor
    · rintro ⟨fit, hfit, h⟩
      obtain rfl := Except.ok.inj hfit
      cases hs : s.isFit with
      | true =>
        rw [hs, if_pos rfl] at h
        exact ⟨rfl, h⟩
      | false =>
        rw [hs, if_neg Bool.false_ne_true] at h
        cases h
    · rintro ⟨hs, hrest⟩
      exact ⟨true, congrArg Except.ok hs, hrest⟩

/-- Where all sets can be assembled and are fit, compiling is generating. -/
theorem compile_outcome {names : List String} {sets : List MessageSet}
    (assembled : List.Forall₂ (fun name s => (c.assemble settings name).outcome = .ok s) names sets)
    (checked : ∀ s ∈ sets, s.check.outcome = .ok true) :
    (c.compile settings names).outcome = (c.generate settings sets).outcome := by
  have hsets : (names.mapM (c.assemble settings)).outcome = .ok sets := by
    rw [Run.outcome_mapM, Except.mapM_eq_ok_iff]
    exact assembled
  have hchecked : (checkAll sets).outcome = .ok () :=
    checkAll_eq_ok_iff.mpr fun s hs => Except.ok.inj (checked s hs)
  rw [compile, Run.outcome_bind, hsets, Except.ok_bind, generateChecked, Run.outcome_bind, hchecked,
    Except.ok_bind]

/-- Sets with different names give the same in every order: the same source with the same tally, or
the same fault, whichever the target, and the same journal.  If they are assembled from names and
are fit, the names give the same source or fault in every order. -/
theorem compile_of_perm {sets sets' : List MessageSet} (perm : sets.Perm sets')
    (distinct : (sets.map MessageSet.name).Nodup) :
    c.generate settings sets = c.generate settings sets' ∧
      ∀ names names' : List String, names.Perm names' →
        List.Forall₂ (fun name s => (c.assemble settings name).outcome = .ok s) names sets →
        (∀ s ∈ sets, s.check.outcome = .ok true) →
          (c.compile settings names).outcome = (c.generate settings sets).outcome ∧
            (c.compile settings names').outcome = (c.compile settings names).outcome := by
  refine ⟨generate_of_perm perm distinct, fun names names' hnames assembled checked => ?_⟩
  -- The other order of the names gives the sets in some other order.
  obtain ⟨others, hothers, hperm⟩ := List.perm_comp_forall₂ hnames.symm assembled
  have checked' : ∀ s ∈ others, s.check.outcome = .ok true :=
    fun s hs => checked s (hperm.mem_iff.mp hs)
  have hcompile := compile_outcome assembled checked
  refine ⟨hcompile, ?_⟩
  rw [hcompile, compile_outcome hothers checked', ← generate_of_perm hperm.symm distinct]

/-- Two files that describe sets with different names. -/
def namedApart : Catalog := ofFiles [
  ("bike.json", objectText [("name", "\"bike\""), ("messages", objectText [])]),
  ("car.json", objectText [("name", "\"car\""),
    ("buses", objectText [("hs", objectText [("controller", "1"), ("speed", "1")])]),
    ("messages", objectText [("0x10", objectText [("bus", "\"hs\"")])])])]

theorem compile_of_perm_namedApart : ∃ bike car g,
    (namedApart.assemble .usual "bike.json").outcome = .ok bike ∧
      (namedApart.assemble .usual "car.json").outcome = .ok car ∧
      (bike.name = "bike" ∧ car.name = "car" ∧ car.messages.length = 1) ∧
      namedApart.generate .usual [bike, car] = namedApart.generate .usual [car, bike] ∧
      (namedApart.compile .usual ["bike.json", "car.json"]).outcome = .ok g ∧
      (namedApart.compile .usual ["car.json", "bike.json"]).outcome = .ok g := by
  have hbike : (namedApart.assemble .usual "bike.json").outcome.toOption.any
      (fun s => s.isFit ∧ s.name = "bike") = true := by
    decide +kernel
  have hcar : (namedApart.assemble .usual "car.json").outcome.toOption.any
      (fun s => s.isFit ∧ s.name = "car" ∧ s.messages.length = 1) = true := by
    decide +kernel
  have hcompile : (namedApart.compile .usual ["bike.json", "car.json"]).outcome.toOption.any
      (fun _ => true) = true := by
    decide +kernel
  obtain ⟨bike, hbike, hfit⟩ := Except.exists_of_any_toOption hbike
  obtain ⟨car, hcar, hfit'⟩ := Except.exists_of_any_toOption hcar
  obtain ⟨g, hg, -⟩ := Except.exists_of_any_toOption hcompile
  obtain ⟨hfit, hname⟩ := of_decide_eq_true hfit
  obtain ⟨hfit', hname', hcount⟩ := of_decide_eq_true hfit'
  have hdistinct : ([bike, car].map MessageSet.name).Nodup := by
    rw [List.map_cons, List.map_cons, hname, hname']
    decide
  obtain ⟨hgenerate, hnames⟩ := @compile_of_perm namedApart .usual _ _
    (List.Perm.swap car bike []) hdistinct
  obtain ⟨-, hcompile⟩ := hnames _ _ (List.Perm.swap "car.json" "bike.json" [])
    (.cons hbike (.cons hcar .nil)) (List.forall_mem_cons.mpr
      ⟨congrArg Except.ok hfit, List.forall_mem_singleton.mpr (congrArg Except.ok hfit')⟩)
  exact ⟨bike, car, g, hbike, hcar, ⟨hname, hname', hcount⟩, hgenerate, hg, hcompile.trans hg⟩

end Catalog

end CanTables
