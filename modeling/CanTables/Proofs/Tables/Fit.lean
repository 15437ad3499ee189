import CanTables.Compile
import CanTables.Proofs.Emit.Arrays
import CanTables.Proofs.Emit.Dispatch
import CanTables.Proofs.Store.Files

/-!
# CanTables.Proofs.Tables.Fit — bus tables and what is declared for them

The bus table is declared with room for two buses in each set, and the decoder branches on the
address of the controller.  Both rely on the buses of a set being attached to different controllers.
Nothing checks that: a bus is looked at on its own, and two of them may share a controller.

`Catalog.busTables_of_compile`: whenever sets are compiled, the bus table and the decoder of a set
fit what is declared exactly if its valid buses are attached to different controllers.
`Catalog.not_forall_fits`: there are sets that are compiled all the same.
-/

namespace CanTables

open Emit Firmware Positions Sorting

/-! ## What is declared -/

/-- The valid buses of a set are attached to different controllers. -/
def MessageSet.ControllersDistinct (s : MessageSet) : Prop :=
  ((s.buses.filter Bus.isValid).map (·.controller)).Nodup

instance (s : MessageSet) : Decidable s.ControllersDistinct :=
  inferInstanceAs (Decidable (List.Nodup _))

/-- The rows of a set in the bus table and its case in the decoder fit what is declared. -/
structure SetTables.Fits (t : SetTables) (rows body : List Line) : Prop where
  rows_le : (controllersOf rows).length ≤ maxBusCount
  controllers_nodup : (controllersOf rows).Nodup
  message_lt : ∀ row ∈ t.messages, row.busIndex < maxBusCount
  request_lt : ∀ row ∈ t.requests, row.busIndex < maxBusCount
  labels_nodup : ((blocks "        " body).map fun case => case.1.code).Nodup

/-- What is emitted about the buses of a set, the set at a position of the tables: rows of the bus
table and a case of the decoder. -/
structure Tables.HasBusTable (tables : Tables) (i : Nat) (t : SetTables) (s : MessageSet)
    (rows body : List Line) : Prop where
  rows_eq : (rowGroups (buses tables))[i]? = some rows
  case_eq : (blocks "    " (decoder tables))[i]? = some (setLabel t, body)
  agrees : t.Agrees s
  controllers_eq : controllersOf rows = t.buses.map fun row => row.controller.toNat
  labels_eq : (blocks "        " body).map Prod.fst = t.buses.map fun row => busLabel row.controller
  message_lt : ∀ row ∈ t.messages, row.busIndex < (controllersOf rows).length
  request_lt : ∀ row ∈ t.requests, row.busIndex < (controllersOf rows).length
  fits_iff : t.Fits rows body ↔ s.ControllersDistinct

/-! ## Controllers -/

namespace MessageSet

variable {s : MessageSet}

theorem controller_of_isValid {b : Bus} (h : b.isValid = true) :
    ∃ c ∈ controllerAddresses, b.controller = some c := by
  obtain ⟨c, hc, hmem⟩ := (Option.any_eq_true _ _).mp h
  exact ⟨c, List.contains_iff_mem.mp hmem, hc⟩

/-- The rows of the bus table have the controllers of the valid buses. -/
theorem controllers_perm :
    (s.busRows.map fun row => some row.controller).Perm
      ((s.buses.filter Bus.isValid).map (·.controller)) := by
  have hvalid : s.busRows.map (fun row => some row.controller) =
      (s.validBuses.map Prod.snd).map (·.controller) := by
    rw [busRows, List.map_map, List.map_map]
    refine List.map_congr_left fun entry hentry => ?_
    -- A valid bus has a controller, so none of the rows has the address that stands for none.
    obtain ⟨c, -, hc⟩ := controller_of_isValid (mem_validBuses_iff.mp hentry).2
    show some (entry.2.controller.getD 0) = entry.2.controller
    rw [hc]
    rfl
  have hbuses : (s.busRefs.filter fun entry => entry.2.isValid).map Prod.snd =
      s.buses.filter Bus.isValid := by
    have hall : s.busRefs.map Prod.snd = s.buses := by
      rw [busRefs, List.map_map]
      exact List.zipIdx_map_fst ..
    conv_rhs => rw [← hall, List.filter_map]
    rfl
  rw [hvalid, ← hbuses]
  exact ((sortBy_perm _ _).map _).map _

theorem controllersDistinct_iff :
    s.ControllersDistinct ↔ (s.busRows.map fun row => row.controller.toNat).Nodup := by
  have hsome : s.busRows.map (fun row => some row.controller) =
      (s.busRows.map BusRow.controller).map some := by
    rw [List.map_map]
    rfl
  have htoNat : s.busRows.map (fun row => row.controller.toNat) =
      (s.busRows.map BusRow.controller).map UInt8.toNat := by
    rw [List.map_map]
    rfl
  have hinjective : Function.Injective UInt8.toNat := fun _ _ => UInt8.toNat_inj.mp
  rw [ControllersDistinct, ← controllers_perm.nodup_iff, hsome, htoNat,
    List.nodup_map_iff (Option.some_injective _), List.nodup_map_iff hinjective]

/-- There are no more buses with different controllers than there are controllers. -/
theorem busRows_le (h : s.ControllersDistinct) : s.busRows.length ≤ maxBusCount := by
  -- Every row has one of the addresses, and none has that of another.
  have hsub : s.busRows.map (fun row => row.controller.toNat) ⊆
      controllerAddresses.map UInt8.toNat := by
    intro n hn
    obtain ⟨row, hrow, rfl⟩ := List.mem_map.mp hn
    obtain ⟨⟨r, b⟩, hmem, rfl⟩ := List.mem_map.mp hrow
    obtain ⟨c, hc, hcontroller⟩ := controller_of_isValid (mem_validBuses_iff.mp hmem).2
    refine List.mem_map.mpr ⟨c, hc, ?_⟩
    rw [BusRow.controller, hcontroller]
    rfl
  have hle := (List.subperm_of_subset (controllersDistinct_iff.mp h) hsub).length_le
  rwa [List.length_map, List.length_map] at hle

/-! ## References to the bus table -/

/-- The position of a bus in the bus table is one of its rows. -/
theorem busIndex?_lt {r : Bus.Ref} {i : Nat} (h : s.busIndex? r = some i) :
    i < s.busRows.length := by
  obtain ⟨hlt, -⟩ := List.getElem?_eq_some_iff.mp (busIndex?_eq_some_iff.mp h)
  rwa [List.length_map] at hlt

theorem placeRequest_eq_ok {r : Request} {row : RequestRow}
    (h : (s.placeRequest r).outcome = .ok row) : row.busIndex < s.busRows.length := by
  unfold placeRequest at h
  split at h
  · cases h
  · next i hi =>
    obtain ⟨-, -, h⟩ := Run.bind_outcome_eq_ok_iff.mp h
    obtain ⟨r', -, hr'⟩ := Option.bind_eq_some_iff.mp hi
    obtain rfl := Except.ok.inj h
    exact busIndex?_lt hr'

end MessageSet

/-- Every row that refers to the bus table refers to a row of it. -/
theorem SoundSet.busIndex_lt_of_tables (s : SoundSet) {index : Nat} {t : SetTables}
    (h : (s.tables index).outcome = .ok t) :
    (∀ row ∈ t.messages, row.busIndex < t.buses.length) ∧
      ∀ row ∈ t.requests, row.busIndex < t.buses.length := by
  constructor
  · intro row hrow
    obtain ⟨-, hagrees⟩ := s.tables_agree h
    obtain ⟨bus, hbus, -⟩ := hagrees.message_bus row hrow
    exact (List.getElem?_eq_some_iff.mp hbus).1
  · intro row hrow
    obtain ⟨messages, signals, requests, -, -, hrequests, rfl⟩ := MessageSet.tables_eq_ok h
    rw [Run.outcome_mapM, Except.mapM_eq_ok_iff] at hrequests
    obtain ⟨r, -, hr⟩ := exists_left_of_forall₂ hrequests hrow
    exact MessageSet.placeRequest_eq_ok hr

/-! ## What fits -/

theorem Emit.Firmware.code_busLabel_inj {a b : UInt8} :
    (busLabel a).code = (busLabel b).code ↔ a.toNat = b.toNat := by
  rw [code_busLabel, code_busLabel, String.append_right_inj, String.append_left_inj, number, number,
    Text.decimal_natCast_inj]

namespace Tables

/-- The bus table and the decoder of a set fit exactly if its valid buses are attached to different
controllers. -/
theorem hasBusTable {tables : Tables} {i : Nat} {t : SetTables} (s : SoundSet)
    (ht : tables.sets[i]? = some t) (h : (s.tables i).outcome = .ok t) :
    tables.HasBusTable i t s (t.buses.flatMap busLines) (setBody t) := by
  obtain ⟨-, hagrees⟩ := s.tables_agree h
  obtain ⟨hmessages, hrequests⟩ := s.busIndex_lt_of_tables h
  have hbuses : t.buses = s.busRows := by
    obtain ⟨messages, signals, requests, -, -, -, rfl⟩ := MessageSet.tables_eq_ok h
    rfl
  have hcontrollers : controllersOf (t.buses.flatMap busLines) =
      t.buses.map fun row => row.controller.toNat := controllersOf_rows t.buses
  have hlength : (controllersOf (t.buses.flatMap busLines)).length = t.buses.length := by
    rw [hcontrollers, List.length_map]
  have hlabels := hagrees.decodes.buses
  refine ⟨?_, ?_, hagrees, hcontrollers, hlabels, hlength ▸ hmessages, hlength ▸ hrequests, ?_⟩
  · rw [rowGroups_buses, List.getElem?_map, ht]
    rfl
  · rw [blocks_decoder, List.getElem?_map, ht]
    rfl
  · rw [MessageSet.controllersDistinct_iff, ← hbuses, ← hcontrollers]
    refine ⟨fun hfits => hfits.controllers_nodup, fun hnodup => ?_⟩
    have hdistinct : s.ControllersDistinct := by
      rwa [MessageSet.controllersDistinct_iff, ← hbuses, ← hcontrollers]
    have hle : t.buses.length ≤ maxBusCount := hbuses ▸ MessageSet.busRows_le hdistinct
    refine ⟨hlength ▸ hle, hnodup, fun row hrow => Nat.lt_of_lt_of_le (hmessages row hrow) hle,
      fun row hrow => Nat.lt_of_lt_of_le (hrequests row hrow) hle, ?_⟩
    -- The labels spell the controllers, so they differ where these do.
    have hcodes : (blocks "        " (setBody t)).map (fun case => case.1.code) =
        t.buses.map fun row => (busLabel row.controller).code := by
      have hmap := congrArg (List.map Line.code) hlabels
      rwa [List.map_map, List.map_map] at hmap
    rw [hcontrollers] at hnodup
    rw [hcodes]
    refine List.pairwise_map.mpr ((List.pairwise_map.mp hnodup).imp fun hne heq => ?_)
    exact hne (code_busLabel_inj.mp heq)

end Tables

/-! ## Sets that are compiled -/

namespace Catalog

/-- A compilation taken apart: the sets that the names stand for, their tables, and the source that
is emitted from the tables. -/
structure Compiled (c : Catalog) (settings : Settings) (names : List String) (g : Generated)
    (sets : List MessageSet) (tables : Tables) (extra : List String) : Prop where
  assembled : List.Forall₂ (fun name s => (c.assemble settings name).outcome = .ok s) names sets
  planned : (Tables.ofSets sets).outcome = .ok tables
  source_eq : g.source = emit settings.target tables extra

/-- The steps of a compilation: all sets are assembled, then all are checked, then their tables are
made. -/
theorem compile_eq_ok {c : Catalog} {settings : Settings} {names : List String} {g : Generated}
    (h : (c.compile settings names).outcome = .ok g) :
    ∃ sets tables extra, (names.mapM (c.assemble settings)).outcome = .ok sets ∧
      (checkAll sets).outcome = .ok () ∧ (Tables.ofSets sets).outcome = .ok tables ∧
        g.source = emit settings.target tables extra := by
  obtain ⟨sets, hsets, h⟩ := Run.bind_outcome_eq_ok_iff.mp h
  obtain ⟨⟨⟩, hchecked, h⟩ := Run.bind_outcome_eq_ok_iff.mp h
  obtain ⟨tables, htables, h⟩ := Run.bind_outcome_eq_ok_iff.mp h
  obtain ⟨extra, -, h⟩ := Run.bind_outcome_eq_ok_iff.mp h
  obtain ⟨-, -, h⟩ := Run.bind_outcome_eq_ok_iff.mp h
  obtain rfl := Except.ok.inj h
  exact ⟨sets, tables, extra, hsets, hchecked, htables, rfl⟩

theorem compiled_of_compile {c : Catalog} {settings : Settings} {names : List String}
    {g : Generated} (h : (c.compile settings names).outcome = .ok g) :
    ∃ sets tables extra, c.Compiled settings names g sets tables extra := by
  obtain ⟨sets, tables, extra, hsets, -, htables, hsource⟩ := compile_eq_ok h
  rw [Run.outcome_mapM, Except.mapM_eq_ok_iff] at hsets
  exact ⟨sets, tables, extra, hsets, htables, hsource⟩

/-- Whenever sets are compiled, each of them has a bus table and a case in the decoder, with one row
and one inner case for each valid bus; and these fit what is declared exactly if the valid buses are
attached to different controllers. -/
theorem busTables_of_compile {c : Catalog} {settings : Settings} {names : List String}
    {g : Generated} (h : (c.compile settings names).outcome = .ok g) :
    ∃ sets tables extra, c.Compiled settings names g sets tables extra ∧
      ∀ i t, tables.sets[i]? = some t → ∃ s ∈ sets, ∃ rows body,
        tables.HasBusTable i t s rows body := by
  obtain ⟨sets, tables, extra, hcompiled⟩ := compiled_of_compile h
  refine ⟨sets, tables, extra, hcompiled, fun i t ht => ?_⟩
  obtain ⟨s, hs, hrun⟩ := Tables.tables_of_getElem? hcompiled.planned ht
  obtain ⟨name, -, hassemble⟩ := exists_left_of_forall₂ hcompiled.assembled hs
  lift s to SoundSet using sound_of_assemble hassemble
  exact ⟨s, hs, _, _, Tables.hasBusTable s ht hrun⟩

/-- A file that describes a set with buses on these controllers. -/
def busesOn (controllers : List (String × String)) : Catalog := ofFiles [
  ("set.json", objectText [("name", "\"car\""), ("buses", objectText
    (controllers.map fun entry =>
      (entry.1, objectText [("speed", "1"), ("controller", entry.2)])))])]

/-- What is computed for a single file is true however its compilation is taken apart. -/
theorem Compiled.exists_single {c : Catalog} {name : String} {g : Generated}
    {sets : List MessageSet} {tables : Tables} {extra : List String}
    (h : c.Compiled .usual [name] g sets tables extra) {p : MessageSet → SetTables → Bool}
    (hany : (c.assemble .usual name).outcome.toOption.any (fun s =>
      (Tables.ofSets [s]).outcome.toOption.any fun tables => tables.sets[0]?.any (p s)) = true) :
    ∃ s t, sets = [s] ∧ tables.sets[0]? = some t ∧ p s t = true := by
  obtain ⟨hsets, htables, -⟩ := h
  obtain ⟨s, rest, hs, hrest, rfl⟩ := List.forall₂_cons_left_iff.mp hsets
  obtain rfl := List.forall₂_nil_left_iff.mp hrest
  obtain ⟨s', hs', hany⟩ := Except.exists_of_any_toOption hany
  obtain rfl := Except.ok.inj (hs.symm.trans hs')
  obtain ⟨tables', htables', hany⟩ := Except.exists_of_any_toOption hany
  obtain rfl := Except.ok.inj (htables.symm.trans htables')
  obtain ⟨t, ht, hp⟩ := (Option.any_eq_true _ _).mp hany
  exact ⟨s, t, rfl, ht, hp⟩

theorem busTables_of_compile_two : ∃ g s tables extra t rows body,
    ((busesOn [("a", "2"), ("b", "1")]).compile .usual ["set.json"]).outcome = .ok g ∧
      (busesOn [("a", "2"), ("b", "1")]).Compiled .usual ["set.json"] g [s] tables extra ∧
      tables.HasBusTable 0 t s rows body ∧ controllersOf rows = [1, 2] ∧ t.Fits rows body := by
  have hcompile : ((busesOn [("a", "2"), ("b", "1")]).compile .usual
      ["set.json"]).outcome.toOption.any (fun _ => true) = true := by
    decide +kernel
  have hany : ((busesOn [("a", "2"), ("b", "1")]).assemble .usual "set.json").outcome.toOption.any
      (fun s => (Tables.ofSets [s]).outcome.toOption.any fun tables => tables.sets[0]?.any fun t =>
        s.ControllersDistinct ∧ t.buses.map (fun row => row.controller.toNat) = [1, 2]) = true := by
    decide +kernel
  obtain ⟨g, hg, -⟩ := Except.exists_of_any_toOption hcompile
  obtain ⟨sets, tables, extra, hcompiled, hall⟩ := busTables_of_compile hg
  obtain ⟨s, t, rfl, ht, hcontrollers⟩ := hcompiled.exists_single hany
  obtain ⟨s', hs', rows, body, hrows⟩ := hall 0 t ht
  obtain rfl := List.mem_singleton.mp hs'
  obtain ⟨hdistinct, hcontrollers⟩ := of_decide_eq_true hcontrollers
  exact ⟨g, s', tables, extra, t, rows, body, hg, hcompiled, hrows,
    hrows.controllers_eq.trans hcontrollers, hrows.fits_iff.mpr hdistinct⟩

/-- Sets with two buses on one controller are compiled all the same. -/
theorem not_forall_fits : ¬ ∀ (c : Catalog) (settings : Settings) (names : List String)
    (g : Generated), (c.compile settings names).outcome = .ok g →
      ∃ sets tables extra, c.Compiled settings names g sets tables extra ∧
        ∀ (i : Nat) (t : SetTables), tables.sets[i]? = some t → ∃ rows body,
          (rowGroups (buses tables))[i]? = some rows ∧
            (blocks "    " (decoder tables))[i]? = some (setLabel t, body) ∧ t.Fits rows body := by
  intro h
  let c := busesOn [("a", "1"), ("b", "1"), ("c", "2")]
  have hcompile : (c.compile .usual ["set.json"]).outcome.toOption.any (fun _ => true) = true := by
    decide +kernel
  have hany : (c.assemble .usual "set.json").outcome.toOption.any (fun s =>
      (Tables.ofSets [s]).outcome.toOption.any fun tables => tables.sets[0]?.any
        fun t => t.buses.length = 3) = true := by
    decide +kernel
  obtain ⟨g, hg, -⟩ := Except.exists_of_any_toOption hcompile
  obtain ⟨sets, tables, extra, hcompiled, hall⟩ := h c .usual ["set.json"] g hg
  obtain ⟨s, t, -, ht, hlength⟩ := hcompiled.exists_single hany
  obtain ⟨rows, body, hrows, -, hfits⟩ := hall 0 t ht
  have hle := hfits.rows_le
  rw [rowGroups_buses, List.getElem?_map, ht] at hrows
  obtain rfl := Option.some.inj hrows
  rw [controllersOf_rows, List.length_map, of_decide_eq_true hlength] at hle
  exact absurd hle (by decide)

end Catalog

end CanTables
