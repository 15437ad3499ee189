import CanTables.Emit.Script
import CanTables.Proofs.Emit.States

/-!
# CanTables.Proofs.Emit.Records — running the records

Where tables are flat lists, what a list holds is known only after every line has been executed.
`Memory.run` executes the lines that concern states: the list of states under construction, the list
`SIGNAL_STATES` of such lists, and the records of the list `SIGNALS` with the entry that refers to
the former.

`execute_pieces`: after the whole source has been executed, `SIGNAL_STATES` has the state tables of
all sets one behind the other, and `SIGNALS` a record for each signal row, in the same order.  No
other line of the source has a part in this (`action?_of_apart`).
-/

namespace CanTables.Emit.Script

open Line Text

/-! ## What lines do -/

/-- What a line does to the memory. -/
inductive Action where
  | clearTable
  | clearStates
  | addState (state : SignalState)
  | addStates
  | clearRecords
  | clearRecord
  | setIndex (index : Nat)
  | addRecord
  deriving DecidableEq, Repr

/-- What has been built of the two lists. -/
structure Memory where
  states : List SignalState
  /-- The list `SIGNAL_STATES`. -/
  table : List (List SignalState)
  /-- The entry `states_index` of the record under construction. -/
  index : Option Nat
  /-- That entry in the records of the list `SIGNALS`. -/
  records : List (Option Nat)
  deriving DecidableEq, Repr

namespace Memory

/-- Before the first line. -/
def start : Memory := ⟨[], [], none, []⟩

/-- What one action does. -/
def step (m : Memory) : Action → Memory
  | .clearTable => { m with table := [] }
  | .clearStates => { m with states := [] }
  | .addState state => { m with states := m.states ++ [state] }
  | .addStates => { m with table := m.table ++ [m.states] }
  | .clearRecords => { m with records := [] }
  | .clearRecord => { m with index := none }
  | .setIndex index => { m with index := some index }
  | .addRecord => { m with records := m.records ++ [m.index] }

/-- What some actions do, one after the other. -/
def run (m : Memory) (actions : List Action) : Memory := actions.foldl step m

end Memory

/-! ## Reading actions -/

/-- Lines that have one meaning. -/
def statements : List (String × Action) :=
  [("SIGNAL_STATES = []", .clearTable), ("states = []", .clearStates),
    ("SIGNAL_STATES.append(states)", .addStates), ("SIGNALS = []", .clearRecords),
    ("signal = \x7b\x7d", .clearRecord), ("SIGNALS.append(signal)", .addRecord)]

/-- How a line begins that appends a state. -/
def stateStart : String := "states.append(\x7b'value': "

/-- How a line begins that sets the entry for the states of a signal. -/
def indexStart : String := "signal['states_index'] = "

/-- What is read to the end of a text. -/
def whole {α : Type} (read : Option (α × List Char)) : Option α :=
  read.bind fun found => if found.2 = [] then some found.1 else none

/-- What a line does, if it concerns states. -/
def action? (code : String) : Option Action :=
  (statements.lookup code).or
    (((whole (state? stateStart ", 'name': " "\x7d)" code.toList)).map .addState).or
      ((whole ((after? indexStart code.toList).bind natural?)).map .setIndex))

/-- What lines do, in order. -/
def actions (lines : List Line) : List Action := lines.filterMap fun l => action? l.code

/-- The lines of a source. -/
def linesOf (pieces : List Piece) : List Line :=
  pieces.filterMap fun piece =>
    match piece with
    | .line l => some l
    | .copied _ => none

/-- The memory after a source has been executed. -/
def execute (pieces : List Piece) : Memory := Memory.start.run (actions (linesOf pieces))

theorem linesOf_lines (lines : List Line) : linesOf (Piece.lines lines) = lines := by
  rw [linesOf, Piece.lines, List.filterMap_map]
  exact List.filterMap_some

theorem actions_append (lines lines' : List Line) :
    actions (lines ++ lines') = actions lines ++ actions lines' := List.filterMap_append ..

theorem actions_flatMap {α : Type} (xs : List α) (f : α → List Line) :
    actions (xs.flatMap f) = xs.flatMap fun x => actions (f x) := List.filterMap_flatMap ..

theorem actions_eq_nil {lines : List Line} (h : ∀ l ∈ lines, action? l.code = none) :
    actions lines = [] := List.filterMap_eq_nil_iff.mpr h

/-! ## Lines that concern no states -/

/-- A text that is not confused with any of some others, however both go on. -/
def apartFrom (marks : List String) (text : String) : Bool :=
  marks.all fun mark =>
    !mark.toList.isPrefixOf text.toList && !text.toList.isPrefixOf mark.toList

theorem not_begins_of_apartFrom {marks : List String} {text : String}
    (h : apartFrom marks text = true) (rest : String) :
    ∀ mark ∈ marks, ¬ mark.toList <+: (text ++ rest).toList := by
  intro mark hmark hbegins
  have hboth := List.all_eq_true.mp h mark hmark
  rw [Bool.and_eq_true, Bool.not_eq_true', Bool.not_eq_true', ← Bool.not_eq_true,
    ← Bool.not_eq_true, List.isPrefixOf_iff_prefix, List.isPrefixOf_iff_prefix] at hboth
  rw [String.toList_append] at hbegins
  -- Of two beginnings of one text the shorter is a beginning of the longer.
  rcases List.prefix_or_prefix_of_prefix hbegins (List.prefix_append _ _) with hle | hle
  · exact hboth.1 hle
  · exact hboth.2 hle

theorem lookup_of_apartFrom {text : String}
    (h : apartFrom (statements.map Prod.fst) text = true) (rest : String) :
    statements.lookup (text ++ rest) = none := by
  rw [List.lookup_eq_none_iff]
  intro entry hentry
  rw [bne_iff_ne]
  intro heq
  refine not_begins_of_apartFrom h rest entry.1 (List.mem_map.mpr ⟨entry, hentry, rfl⟩) ?_
  exact heq ▸ List.prefix_refl _

theorem after?_of_apartFrom {mark text : String} (h : apartFrom [mark] text = true)
    (rest : String) : after? mark (text ++ rest).toList = none :=
  after?_eq_none (not_begins_of_apartFrom h rest mark List.mem_cons_self)

/-- A text that no line about states begins with, however it goes on. -/
def apart (text : String) : Bool :=
  apartFrom (statements.map Prod.fst) text && apartFrom [stateStart] text &&
    apartFrom [indexStart] text

/-- A line that begins with such a text concerns no states. -/
theorem action?_of_apart {text : String} (h : apart text = true) (rest : String) :
    action? (text ++ rest) = none := by
  obtain ⟨hboth, hindex⟩ := Bool.and_eq_true_iff.mp h
  obtain ⟨hstatements, hstate⟩ := Bool.and_eq_true_iff.mp hboth
  rw [action?, lookup_of_apartFrom hstatements, state?, after?_of_apartFrom hstate,
    after?_of_apartFrom hindex]
  rfl

theorem action?_around {text : String} (h : apart text = true) (middle rest : String) :
    action? (text ++ middle ++ rest) = none := by
  rw [String.append_assoc]
  exact action?_of_apart h _

theorem action?_constant {name : String} (h : apart name = true) (value : Nat) :
    action? (constant name value).code = none := action?_around h _ _

theorem action?_emptyList {name : String} (h : apart name = true) :
    action? (emptyList name).code = none := action?_of_apart h _

/-- A table and its records, if neither has to do with states. -/
theorem actions_record {name table : String} (hname : apart name = true)
    (htable : apart table = true) (entries : List (String × String)) :
    actions (record name table entries) = [] := by
  refine actions_eq_nil (List.forall_mem_append.mpr ⟨List.forall_mem_append.mpr ⟨?_, ?_⟩, ?_⟩)
  · exact List.forall_mem_singleton.mpr (action?_of_apart hname _)
  · refine List.forall_mem_map.mpr fun entry _ => ?_
    obtain ⟨key, value⟩ := entry
    show action? (name ++ "['" ++ key ++ "'] = " ++ value) = none
    simp only [String.append_assoc]
    exact action?_of_apart hname _
  · refine List.forall_mem_cons.mpr ⟨?_, List.forall_mem_singleton.mpr (by decide)⟩
    show action? (table ++ ".append(" ++ name ++ ")") = none
    simp only [String.append_assoc]
    exact action?_of_apart htable _

/-- Where a table has a part for each set, the lines around the parts do nothing. -/
theorem actions_rows (tables : Tables) (lines : SetTables → List Line) :
    actions (rows tables lines) = tables.sets.flatMap fun t => actions (lines t) := by
  have hnoted : ∀ t, action? (noted "" (setNote t)).code = none := by
    intro t
    show action? "" = none
    decide
  have hblank : actions [blank] = [] := actions_eq_nil (by decide)
  rw [rows, actions_append, hblank, List.append_nil, actions_flatMap]
  exact List.flatMap_congr fun t _ => List.filterMap_cons_none (hnoted t)

theorem actions_hookFunction (name : String) (tables : Tables) (hooks : SetTables → List String) :
    actions (hookFunction name tables hooks) = [] := by
  have hlines : ∀ t, ∀ l ∈ hookLines t (hooks t), action? l.code = none := by
    intro t
    refine List.forall_mem_cons.mpr ⟨?_, ?_⟩
    · show action? ("    if message_set_index == " ++ number t.index ++ ":") = none
      exact action?_around (by decide) _ _
    · split
      · exact List.forall_mem_singleton.mpr (by decide)
      · -- However a hook is called, its name stands behind blanks.
        refine List.forall_mem_map.mpr fun hook _ => ?_
        show action? ("        " ++ hook ++ "()") = none
        exact action?_around (by decide) _ _
  refine actions_eq_nil (List.forall_mem_append.mpr ⟨List.forall_mem_append.mpr
    ⟨List.forall_mem_append.mpr ⟨?_, ?_⟩, List.forall_mem_flatMap.mpr fun t _ => hlines t⟩, ?_⟩)
  · refine List.forall_mem_singleton.mpr ?_
    show action? ("def " ++ name ++ "(message_set_index):") = none
    exact action?_around (by decide) _ _
  · split
    · exact List.forall_mem_singleton.mpr (by decide)
    · exact fun l hl => absurd hl List.not_mem_nil
  · exact List.forall_mem_singleton.mpr (by decide)

/-! ## States and records -/

/-- The actions that append the states of one signal. -/
def blockActions (states : List SignalState) : List Action :=
  .clearStates :: (states.map .addState ++ [.addStates])

/-- The actions that append the record of one signal. -/
def recordActions (row : SignalRow) : List Action :=
  .clearRecord :: ((row.states.map (·.index)).toList.map .setIndex ++ [.addRecord])

/-- The line that appends a state. -/
def stateAppend (state : SignalState) : Line :=
  append "states" ("\x7b'value': " ++ Digits.decimal state.value ++ ", 'name': " ++
    Literal.quote state.name ++ "\x7d")

theorem action?_stateAppend (state : SignalState) :
    action? (stateAppend state).code = some (.addState state) := by
  have hstart : stateStart = "states" ++ (".append(" ++ "\x7b'value': ") := by decide
  have hclose : "\x7d)" = "\x7d" ++ ")" := by decide
  have hcode : (stateAppend state).code = stateText stateStart ", 'name': " "\x7d)" state := by
    simp only [stateAppend, append, bare, stateText, hstart, hclose, String.append_assoc]
  have hread : state? stateStart ", 'name': " "\x7d)"
      (stateText stateStart ", 'name': " "\x7d)" state).toList = some (state, []) := by
    rw [← List.append_nil (String.toList _)]
    exact state?_stateText rfl state []
  -- The line goes on in another way than the one that clears the states.
  rw [hcode, action?, hread, stateText, lookup_of_apartFrom (by decide)]
  rfl

theorem actions_stateLines (states : List SignalState) :
    actions (stateLines states) = blockActions states := by
  have hstart : actions [emptyList "states"] = [.clearStates] := by decide
  have hfinish : actions [append "SIGNAL_STATES" "states", blank] = [.addStates] := by decide
  have hstates : actions (states.map stateAppend) = states.map .addState := by
    simp only [actions, List.filterMap_map, Function.comp_def, action?_stateAppend,
      List.filterMap_eq_map']
  show actions ([emptyList "states"] ++ states.map stateAppend ++
    [append "SIGNAL_STATES" "states", blank]) = _
  rw [actions_append, actions_append, hstart, hfinish, hstates]
  rfl

theorem action?_index (n : Nat) : action? (indexStart ++ number n) = some (.setIndex n) := by
  have hread : natural? (number n).toList = some (n, []) := by
    rw [← List.append_nil (String.toList _), number, toList_decimal_natCast]
    exact natural?_write n (by simp)
  rw [action?, lookup_of_apartFrom (by decide), state?, after?_of_apartFrom (by decide),
    String.toList_append, after?_append, Option.bind_some, hread]
  rfl

/-- The line of one entry of a signal. -/
def entryLine (entry : String × String) : Line :=
  bare ("signal" ++ "['" ++ entry.1 ++ "'] = " ++ entry.2)

/-- Entries with these keys do not concern states. -/
theorem actions_entries {entries : List (String × String)} (keys : List String)
    (hkeys : entries.map Prod.fst = keys)
    (h : ∀ key ∈ keys, apart ("signal" ++ "['" ++ key ++ "'] = ") = true) :
    actions (entries.map entryLine) = [] := by
  refine actions_eq_nil (List.forall_mem_map.mpr fun entry hentry => ?_)
  exact action?_of_apart (h _ (hkeys ▸ List.mem_map.mpr ⟨entry, hentry, rfl⟩)) _

theorem actions_stateEntries (states : Option StateBlock) :
    actions ((stateEntries states).map entryLine) =
      (states.map (·.index)).toList.map .setIndex := by
  cases states with
  | none => rfl
  | some block =>
    have hstart : "signal" ++ "['" ++ "states_index" ++ "'] = " = indexStart := by decide
    have hindex : actions [entryLine ("states_index", number block.index)] =
        [.setIndex block.index] := by
      simp only [actions, entryLine, bare, hstart, List.filterMap_cons, action?_index,
        List.filterMap_nil]
    have hcount : actions ([("state_count", number block.states.length)].map entryLine) = [] :=
      actions_entries ["state_count"] rfl (by decide)
    show actions ([entryLine ("states_index", number block.index)] ++
      [("state_count", number block.states.length)].map entryLine) = _
    rw [actions_append, hcount, hindex]
    rfl

/-- Of the entries of a signal only the position of its states concerns them. -/
theorem actions_signalRecord (t : SetTables) (row : SignalRow) :
    actions (record "signal" "SIGNALS" (signalEntries t row)) = recordActions row := by
  have hstart : actions [bare ("signal" ++ " = \x7b\x7d")] = [.clearRecord] := by decide
  have hfinish : actions [append "SIGNALS" "signal", blank] = [.addRecord] := by decide
  have hentries : actions ((signalEntries t row).map entryLine) =
      (row.states.map (·.index)).toList.map .setIndex := by
    rw [signalEntries, List.map_append, List.map_append, actions_append, actions_append,
      actions_stateEntries,
      actions_entries ["message_set_index", "message_index", "generic_name", "bit_position",
        "bit_size", "factor", "offset", "min_value", "max_value", "max_frequency", "send_same",
        "force_send_changed"] rfl (by decide),
      actions_entries ["writable", "decoder", "encoder", "name"] rfl (by decide),
      List.nil_append, List.append_nil]
  show actions ([bare ("signal" ++ " = \x7b\x7d")] ++ (signalEntries t row).map entryLine ++
    [append "SIGNALS" "signal", blank]) = _
  rw [actions_append, actions_append, hstart, hfinish, hentries]
  rfl

/-- A table with its count does nothing, if neither its name nor that of its records has to do with
states. -/
theorem actions_table {α : Type} {count name table : String} (hcount : apart count = true)
    (hname : apart name = true) (htable : apart table = true) (value : Nat) (tables : Tables)
    (items : SetTables → List α) (entries : SetTables → α → List (String × String)) :
    actions ([constant count value, emptyList table] ++
      rows tables fun t => (items t).flatMap fun item => record name table (entries t item)) =
        [] := by
  have hstart : actions [constant count value, emptyList table] = [] :=
    actions_eq_nil (List.forall_mem_cons.mpr ⟨action?_constant hcount value,
      List.forall_mem_singleton.mpr (action?_emptyList htable)⟩)
  rw [actions_append, hstart, actions_rows]
  simp only [actions_flatMap, actions_record hname htable, List.nil_append,
    List.flatMap_eq_nil_iff, implies_true]

theorem actions_messageSets (tables : Tables) : actions (messageSets tables) = [] := by
  have hstart : actions [constant "MESSAGE_SET_COUNT" tables.sets.length,
      emptyList "MESSAGE_SETS"] = [] :=
    actions_eq_nil (List.forall_mem_cons.mpr ⟨action?_constant (by decide) _,
      List.forall_mem_singleton.mpr (by decide)⟩)
  have hset : apart "set" = true := by decide
  have hsets : apart "MESSAGE_SETS" = true := by decide
  rw [messageSets, actions_append, hstart, actions_flatMap]
  simp only [actions_record hset hsets, List.nil_append, List.flatMap_eq_nil_iff, implies_true]

theorem actions_signalStates (tables : Tables) : actions (signalStates tables) =
    .clearTable :: (tables.sets.flatMap SetTables.stateTable).flatMap blockActions := by
  have hstart : actions [constant "MAX_SIGNAL_STATES" maxSignalStates,
      constant "MAX_SIGNAL_COUNT" tables.maxSignalCount] = [] :=
    actions_eq_nil (List.forall_mem_cons.mpr ⟨action?_constant (by decide) _,
      List.forall_mem_singleton.mpr (action?_constant (by decide) _)⟩)
  have hclear : actions [emptyList "SIGNAL_STATES"] = [.clearTable] := by decide
  show actions ([constant "MAX_SIGNAL_STATES" maxSignalStates,
    constant "MAX_SIGNAL_COUNT" tables.maxSignalCount] ++ ([emptyList "SIGNAL_STATES"] ++
      rows tables fun t => t.stateTable.flatMap stateLines)) = _
  simp only [actions_append, hstart, hclear, actions_rows, actions_flatMap, actions_stateLines,
    List.flatMap_assoc]
  rfl

theorem actions_signals (tables : Tables) : actions (signals tables) =
    .clearRecords :: (tables.sets.flatMap SetTables.signals).flatMap recordActions := by
  have hclear : actions [emptyList "SIGNALS"] = [.clearRecords] := by decide
  show actions ([emptyList "SIGNALS"] ++ rows tables fun t => t.signals.flatMap fun row =>
    record "signal" "SIGNALS" (signalEntries t row)) = _
  simp only [actions_append, hclear, actions_rows, actions_flatMap, actions_signalRecord,
    List.flatMap_assoc]
  rfl

/-- What the whole source does with states. -/
theorem actions_pieces (tables : Tables) : actions (linesOf (pieces tables)) =
    .clearTable :: (tables.sets.flatMap SetTables.stateTable).flatMap blockActions ++
      .clearRecords :: (tables.sets.flatMap SetTables.signals).flatMap recordActions := by
  have hheader : actions header = [] := actions_eq_nil (by decide)
  have hbuses : actions (buses tables) = [] :=
    actions_table (by decide) (by decide) (by decide) _ tables _ _
  have hmessages : actions (messages tables) = [] :=
    actions_table (by decide) (by decide) (by decide) _ tables _ _
  have hcommands : actions (commands tables) = [] :=
    actions_table (by decide) (by decide) (by decide) _ tables _ _
  have hrequests : actions (requests tables) = [] :=
    actions_table (by decide) (by decide) (by decide) _ tables _ _
  simp only [pieces, linesOf_lines, actions_append, hheader, actions_messageSets, hbuses, hmessages,
    actions_signalStates, actions_signals, initializers, loopers, actions_hookFunction, hcommands,
    hrequests, List.append_nil, List.nil_append]

/-! ## The lists that are built -/

namespace Memory

theorem run_append (m : Memory) (before after : List Action) :
    m.run (before ++ after) = (m.run before).run after := List.foldl_append

theorem run_blockActions (m : Memory) (states : List SignalState) :
    m.run (blockActions states) = { m with states, table := m.table ++ [states] } := by
  have hadd : ∀ m : Memory, m.run (states.map .addState) =
      { m with states := m.states ++ states } := by
    induction states with
    | nil => intro m; simp [run]
    | cons state states ih =>
      intro m
      show (m.step (.addState state)).run (states.map .addState) = _
      rw [ih, step, List.append_assoc]
      rfl
  show ((m.step .clearStates).run (states.map .addState ++ [.addStates])) = _
  rw [run_append, hadd]
  simp [run, step]

/-- Blocks of states come to the end of the list of states. -/
theorem run_blocks (m : Memory) (table : List (List SignalState)) :
    ∃ states, m.run (table.flatMap blockActions) =
      { m with states, table := m.table ++ table } := by
  induction table generalizing m with
  | nil => exact ⟨m.states, by simp [run]⟩
  | cons states table ih =>
    -- The states under construction are left as the last block had them: nothing is said of them.
    obtain ⟨last, hlast⟩ := ih { m with states, table := m.table ++ [states] }
    refine ⟨last, ?_⟩
    rw [List.flatMap_cons, run_append, run_blockActions, hlast, List.append_assoc]
    rfl

theorem run_recordActions (m : Memory) (row : SignalRow) :
    m.run (recordActions row) =
      { m with index := row.states.map (·.index),
               records := m.records ++ [row.states.map (·.index)] } := by
  cases hstates : row.states <;> simp [recordActions, hstates, run, step]

/-- Records come to the end of the list of records. -/
theorem run_records (m : Memory) (rows : List SignalRow) :
    ∃ index, m.run (rows.flatMap recordActions) =
      { m with index, records := m.records ++ rows.map fun row => row.states.map (·.index) } := by
  induction rows generalizing m with
  | nil => exact ⟨m.index, by simp [run]⟩
  | cons row rows ih =>
    obtain ⟨last, hlast⟩ := ih { m with
      index := row.states.map (·.index), records := m.records ++ [row.states.map (·.index)] }
    refine ⟨last, ?_⟩
    rw [List.flatMap_cons, run_append, run_recordActions, hlast, List.append_assoc]
    rfl

end Memory

/-- After the whole source has been executed, the list of states has the state tables of all sets
one behind the other, and the list of records has a record for each signal row. -/
theorem execute_pieces (tables : Tables) :
    (execute (pieces tables)).table = tables.sets.flatMap SetTables.stateTable ∧
      (execute (pieces tables)).records =
        (tables.sets.flatMap SetTables.signals).map fun row => row.states.map (·.index) := by
  obtain ⟨states, hblocks⟩ := Memory.run_blocks .start (tables.sets.flatMap SetTables.stateTable)
  obtain ⟨index, hrecords⟩ := Memory.run_records
    (((Memory.start.step .clearTable).run ((tables.sets.flatMap SetTables.stateTable).flatMap
      blockActions)).step .clearRecords) (tables.sets.flatMap SetTables.signals)
  have hrun : execute (pieces tables) = (((Memory.start.step .clearTable).run
      ((tables.sets.flatMap SetTables.stateTable).flatMap blockActions)).step .clearRecords).run
        ((tables.sets.flatMap SetTables.signals).flatMap recordActions) := by
    rw [execute, actions_pieces, Memory.run_append]
    rfl
  have hstart : Memory.start.step .clearTable = .start := rfl
  rw [hrun, hrecords, hstart, hblocks]
  exact ⟨rfl, rfl⟩

end CanTables.Emit.Script
