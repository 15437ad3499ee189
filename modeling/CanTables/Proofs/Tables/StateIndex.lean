import CanTables.Proofs.Emit.Records
import CanTables.Proofs.Store.Files
import CanTables.Proofs.Tables.Compiled

/-!
# CanTables.Proofs.Tables.StateIndex — what the index of a signal's states refers to

A signal row refers to its states by their position in the state table of its set.  In the firmware
that table is an array of its own, so the position leads to the states.  As records all state tables
are one list, and its elements do not say to which set they belong: the states stand behind those of
all sets in front, but the position that the record of a signal gives does not count these
(`Tables.states_of_ofSets`).

So the index means the same in both languages as long as no set in front has states, and not
otherwise (`Tables.not_forall_sameStates`).
-/

namespace CanTables

open Emit

/-! ## The state table of one set -/

/-- Where the signal rows with states are numbered in their order, the index of a row is the
position of its states in the state table. -/
theorem SetTables.stateTable_getElem? {t : SetTables}
    (numbered : t.signals.filterMap (fun row => row.states.map (·.index)) =
      List.range t.stateRows.length) {row : SignalRow} (hrow : row ∈ t.signals)
    {block : StateBlock} (hblock : row.states = some block) :
    t.stateTable[block.index]? = some block.states := by
  have htable : t.stateTable = (t.signals.filterMap (·.states)).map (·.states) :=
    List.map_filterMap.symm
  obtain ⟨j, hj⟩ := List.mem_iff_getElem?.mp (List.mem_filterMap.mpr ⟨row, hrow, hblock⟩)
  -- The blocks have the numbers 0, 1, and so on, so the one at `j` has the number `j`.
  have hindex : block.index = j := by
    have hnumber : ((t.signals.filterMap (·.states)).map (·.index))[j]? = some block.index := by
      rw [List.getElem?_map, hj]
      rfl
    rw [List.map_filterMap, numbered] at hnumber
    obtain ⟨hlt, heq⟩ := List.getElem?_eq_some_iff.mp hnumber
    rw [← heq, List.getElem_range]
  rw [htable, List.getElem?_map, hindex, hj]
  rfl

theorem MessageSet.states_numbered {s : MessageSet} {index : Nat} {t : SetTables}
    (h : (s.tables index).outcome = .ok t) :
    t.signals.filterMap (fun row => row.states.map (·.index)) =
      List.range t.stateRows.length := by
  obtain ⟨messages, signals, requests, -, -, -, rfl⟩ := tables_eq_ok h
  rw [SetTables.stateRows, signalRows_numbered, List.range_eq_range']

namespace Tables

/-! ## Tables of several sets one behind the other -/

/-- How many entries of a table belong to the sets in front of a position. -/
def before {α : Type} (t : Tables) (i : Nat) (entries : SetTables → List α) : Nat :=
  ((t.sets.take i).flatMap entries).length

theorem flatMap_getElem?_before {α : Type} {t : Tables} {entries : SetTables → List α} {i k : Nat}
    {set : SetTables} (hset : t.sets[i]? = some set) {a : α} (ha : (entries set)[k]? = some a) :
    (t.sets.flatMap entries)[t.before i entries + k]? = some a := by
  obtain ⟨hi, rfl⟩ := List.getElem?_eq_some_iff.mp hset
  have hsplit : t.sets = t.sets.take i ++ t.sets[i] :: t.sets.drop (i + 1) := by
    simp
  obtain ⟨hk, -⟩ := List.getElem?_eq_some_iff.mp ha
  conv_lhs => rw [hsplit]
  rw [List.flatMap_append, List.flatMap_cons, before, List.getElem?_append_right (by omega),
    Nat.add_sub_cancel_left, List.getElem?_append_left hk, ha]

/-! ## Both languages -/

/-- The memory after the records have been executed. -/
def executed (t : Tables) : Script.Memory := Script.execute (Script.pieces t)

/-- Where the states of a signal row are written: of the row at a position of the signal table of a
set at a position. -/
structure StatesWritten (t : Tables) (i k : Nat) (block : StateBlock) : Prop where
  /-- The array row of the signal refers to a cell of its set. -/
  reference : ∃ line,
    ((Firmware.rowGroups (Firmware.signals t))[i]?.bind fun rows => rows[k]?) = some line ∧
      Firmware.RefersTo line i block.index block.states.length
  /-- In the array they are in the part of the set. -/
  cell : Firmware.cell? (Firmware.signalStates t) i block.index block.states.length =
    some block.states
  /-- In the list they are behind those of all sets in front. -/
  entry : t.executed.table[t.before i SetTables.stateTable + block.index]? = some block.states
  /-- The record of the row gives the position in the table of the set. -/
  record : t.executed.records[t.before i SetTables.signals + k]? = some (some block.index)

/-- The list has, where the record of a signal row points to, what the array has for the row. -/
def SameStates (t : Tables) (i k : Nat) (block : StateBlock) : Prop :=
  ∃ index states, t.executed.records[t.before i SetTables.signals + k]? = some (some index) ∧
    t.executed.table[index]? = some states ∧
    Firmware.cell? (Firmware.signalStates t) i block.index block.states.length = some states

section Written

variable {sets : List MessageSet} {t : Tables} (h : (ofSets sets).outcome = .ok t) {i k : Nat}
  {set : SetTables} (hset : t.sets[i]? = some set) {row : SignalRow}
  (hrow : set.signals[k]? = some row) {block : StateBlock} (hblock : row.states = some block)
include h hset hrow hblock

theorem statesWritten : t.StatesWritten i k block := by
  obtain ⟨s, -, hrun⟩ := tables_of_getElem? h hset
  have hstates := SetTables.stateTable_getElem? (MessageSet.states_numbered hrun)
    (List.mem_of_getElem? hrow) hblock
  obtain ⟨htable, hrecords⟩ := Script.execute_pieces t
  refine ⟨⟨Firmware.signalLine set row, ?_, ?_⟩, Firmware.cell?_signalStates hset hstates, ?_, ?_⟩
  · rw [Firmware.rowGroups_signals, List.getElem?_map, hset, Option.map_some, Option.bind_some,
      List.getElem?_map, hrow, Option.map_some]
  · exact MessageSet.index_of_tables hrun ▸ Firmware.signalLine_refersTo set hblock
  · rw [executed, htable]
    exact flatMap_getElem?_before hset hstates
  · rw [executed, hrecords, List.getElem?_map, flatMap_getElem?_before hset hrow, Option.map_some,
      hblock]
    rfl

theorem sameStates_iff : t.SameStates i k block ↔
    (t.sets.flatMap SetTables.stateTable)[block.index]? = some block.states := by
  obtain ⟨-, hcell, -, hrecord⟩ := statesWritten h hset hrow hblock
  rw [SameStates, ← (Script.execute_pieces t).1]
  constructor
  · -- The record and the cell are known, so all that is left to say is what the list has there.
    rintro ⟨index, states, hindex, hentry, hcell'⟩
    obtain rfl : block.index = index := by simpa using hrecord.symm.trans hindex
    obtain rfl : block.states = states := by simpa using hcell.symm.trans hcell'
    exact hentry
  · intro hentry
    exact ⟨_, _, hrecord, hentry, hcell⟩

end Written

/-- Whenever the tables of sets can be made, the array has the states of a signal row at its index
in the part of its set, and the list has them at this index behind the states of all sets in front.
So both languages mean the same by the index if no set in front has states, and otherwise only if
the same states happen to stand there. -/
theorem states_of_ofSets {sets : List MessageSet} {t : Tables}
    (h : (ofSets sets).outcome = .ok t) {i k : Nat} {set : SetTables}
    (hset : t.sets[i]? = some set) {row : SignalRow} (hrow : set.signals[k]? = some row)
    {block : StateBlock} (hblock : row.states = some block) :
    t.StatesWritten i k block ∧
      (t.before i SetTables.stateTable = 0 → t.SameStates i k block) ∧
      (t.SameStates i k block ↔
        (t.sets.flatMap SetTables.stateTable)[block.index]? = some block.states) := by
  have hwritten := statesWritten h hset hrow hblock
  refine ⟨hwritten, fun hbefore => ?_, sameStates_iff h hset hrow hblock⟩
  have hentry := hwritten.entry
  rw [hbefore, Nat.zero_add] at hentry
  exact ⟨_, _, hwritten.record, hentry, hwritten.cell⟩

/-! ## Two sets with states -/

/-- A set with one signal, which has one state. -/
def oneState (set id signal state : String) : String :=
  Catalog.objectText [("name", "\"" ++ set ++ "\""),
    ("buses", Catalog.objectText [
      ("hs", Catalog.objectText [("speed", "1"), ("controller", "1")])]),
    ("messages", Catalog.objectText [(id, Catalog.objectText [("bus", "\"hs\""),
      ("signals", Catalog.objectText [(signal, Catalog.objectText [("bit_position", "0"),
        ("bit_size", "1"), ("states", Catalog.objectText [(state, "[1]")])])])])])]

/-- Two sets with states of their own. -/
def gearAndDoor : Catalog := .ofFiles [
  ("a.json", oneState "a" "0x1" "gear" "first"), ("b.json", oneState "b" "0x2" "door" "open")]

theorem ofSets_gearAndDoor : ∃ a b t set set' row row',
    (gearAndDoor.assemble .usual "a.json").outcome = .ok a ∧
      (gearAndDoor.assemble .usual "b.json").outcome = .ok b ∧
      (ofSets [a, b]).outcome = .ok t ∧ t.sets = [set, set'] ∧ set.signals = [row] ∧
      set'.signals = [row'] ∧ row.states = some ⟨0, [⟨1, "first"⟩]⟩ ∧
      row'.states = some ⟨0, [⟨1, "open"⟩]⟩ := by
  have hany : (gearAndDoor.assemble .usual "a.json" >>= fun a =>
      gearAndDoor.assemble .usual "b.json" >>= fun b => ofSets [a, b]).outcome.toOption.any
        (fun t => t.sets.map (fun set => set.signals.map (·.states)) =
          [[some ⟨0, [⟨1, "first"⟩]⟩], [some ⟨0, [⟨1, "open"⟩]⟩]]) = true := by
    decide +kernel
  obtain ⟨t, h, hstates⟩ := Except.exists_of_any_toOption hany
  obtain ⟨a, ha, h⟩ := Run.bind_outcome_eq_ok_iff.mp h
  obtain ⟨b, hb, ht⟩ := Run.bind_outcome_eq_ok_iff.mp h
  have hstates := of_decide_eq_true hstates
  simp only [List.map_eq_cons_iff, List.map_eq_nil_iff] at hstates
  obtain ⟨set, _, hsets, ⟨row, _, hset, hrow, rfl⟩, set', _, rfl, ⟨row', _, hset', hrow', rfl⟩,
    rfl⟩ := hstates
  exact ⟨a, b, t, set, set', row, row', ha, hb, ht, hsets, hset, hset', hrow, hrow'⟩

theorem states_of_ofSets_gearAndDoor : ∃ sets t set set' row row' block block',
    (ofSets sets).outcome = .ok t ∧ (t.sets = [set, set'] ∧ set.signals = [row] ∧
      set'.signals = [row'] ∧ row.states = some block ∧ row'.states = some block') ∧
      t.SameStates 0 0 block ∧ t.before 1 SetTables.stateTable = 1 ∧
      t.StatesWritten 1 0 block' := by
  obtain ⟨a, b, t, set, set', row, row', -, -, h, hsets, hset, hset', hrow, hrow'⟩ :=
    ofSets_gearAndDoor
  obtain ⟨-, hsame, -⟩ := states_of_ofSets h (i := 0) (k := 0) (by rw [hsets]; rfl)
    (by rw [hset]; rfl) hrow
  obtain ⟨hwritten, -⟩ := states_of_ofSets h (i := 1) (k := 0) (by rw [hsets]; rfl)
    (by rw [hset']; rfl) hrow'
  have hbefore : t.before 1 SetTables.stateTable = 1 := by
    simp [before, hsets, SetTables.stateTable, hset, hrow]
  exact ⟨[a, b], t, set, set', row, row', _, _, h, ⟨hsets, hset, hset', hrow, hrow'⟩, hsame rfl,
    hbefore, hwritten⟩

/-- The record of the second set's signal points to the states of the first set. -/
theorem not_forall_sameStates : ¬ ∀ (sets : List MessageSet) (t : Tables),
    (∀ s ∈ sets, ∃ (c : Catalog) (settings : Settings) (name : String),
      (c.assemble settings name).outcome = .ok s) →
    (ofSets sets).outcome = .ok t → ∀ (i k : Nat) (set : SetTables) (row : SignalRow)
      (block : StateBlock), t.sets[i]? = some set → set.signals[k]? = some row →
        row.states = some block → t.SameStates i k block := by
  intro hall
  obtain ⟨a, b, t, set, set', row, row', ha, hb, h, hsets, hset, hset', hrow, hrow'⟩ :=
    ofSets_gearAndDoor
  have assembled : ∀ s ∈ [a, b], ∃ (c : Catalog) (settings : Settings) (name : String),
      (c.assemble settings name).outcome = .ok s :=
    List.forall_mem_cons.mpr ⟨⟨gearAndDoor, .usual, "a.json", ha⟩,
      List.forall_mem_singleton.mpr ⟨gearAndDoor, .usual, "b.json", hb⟩⟩
  have hsecond : t.sets[1]? = some set' := by rw [hsets]; rfl
  have hfirst : set'.signals[0]? = some row' := by rw [hset']; rfl
  have hsame := hall [a, b] t assembled h 1 0 set' row' _ hsecond hfirst hrow'
  rw [sameStates_iff h hsecond hfirst hrow'] at hsame
  simp [hsets, SetTables.stateTable, hset, hrow] at hsame

end Tables

end CanTables
