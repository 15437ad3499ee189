import CanTables.Compile

/-!
# CanTables.Proofs.Emit.Forget — no reference is written

Rows hold the references of their set beside their own positions.  Nothing that is written depends on
these references: `emit_forget` says that tables whose rows have lost them give the same source.
-/

namespace CanTables

open Emit

/-! ## Rows without references -/

/-- The row without its bus's references. -/
def BusRow.forget (row : BusRow) : BusRow := ⟨⟨0⟩, { row.bus with messages := [] }⟩

/-- The row without its message's references. -/
def MessageRow.forget (row : MessageRow) : MessageRow :=
  { row with ref := ⟨0⟩, message := { row.message with bus := none, signals := [] } }

/-- The row without its signal's references. -/
def SignalRow.forget (row : SignalRow) : SignalRow :=
  { row with ref := ⟨0⟩, signal := { row.signal with message := ⟨0⟩ } }

/-- The tables without references. -/
def SetTables.forget (t : SetTables) : SetTables :=
  { t with
    buses := t.buses.map BusRow.forget
    messages := t.messages.map MessageRow.forget
    signals := t.signals.map SignalRow.forget }

/-- The tables without references, and without what was left out. -/
def Tables.forget (t : Tables) : Tables := ⟨t.sets.map SetTables.forget, .zero⟩

namespace Tables

variable (t : Tables)

theorem largest_forget {count : SetTables → Nat} (h : ∀ set, count set.forget = count set) :
    t.forget.largest count = t.largest count := by
  simp only [largest, forget, List.foldr_map, h]

theorem maxMessageCount_forget : t.forget.maxMessageCount = t.maxMessageCount :=
  t.largest_forget fun _ => List.length_map ..

theorem maxSignalCount_forget : t.forget.maxSignalCount = t.maxSignalCount :=
  t.largest_forget fun _ => List.length_map ..

theorem maxCommandCount_forget : t.forget.maxCommandCount = t.maxCommandCount :=
  t.largest_forget fun _ => rfl

theorem maxRequestCount_forget : t.forget.maxRequestCount = t.maxRequestCount :=
  t.largest_forget fun _ => rfl

theorem extraSources_forget : t.forget.extraSources = t.extraSources := List.flatMap_map ..

theorem length_forget : t.forget.sets.length = t.sets.length := List.length_map ..

/-- What is written set by set. -/
theorem flatMap_forget {β : Type} {lines : SetTables → List β}
    (h : ∀ set, lines set.forget = lines set) :
    t.forget.sets.flatMap lines = t.sets.flatMap lines := by
  simp only [forget, List.flatMap_map, h]

end Tables

namespace SetTables

variable (t : SetTables)

theorem stateTable_forget : t.forget.stateTable = t.stateTable := List.filterMap_map ..

theorem messagesOn_forget (index : Nat) :
    t.forget.messagesOn index = (t.messagesOn index).map MessageRow.forget := by
  rw [messagesOn, forget, List.filter_map]
  rfl

end SetTables

namespace Emit

variable (t : SetTables) (tables : Tables)

theorem dispatch_forget : dispatch t.forget = dispatch t := by
  have hname : ∀ index : Nat, (t.forget.signals[index]?).map (·.signal.name) =
      (t.signals[index]?).map (·.signal.name) := by
    intro index
    rw [SetTables.forget, List.getElem?_map, Option.map_map]
    rfl
  have hbranch : ∀ row : MessageRow, messageBranch? t.forget row.forget = messageBranch? t row := by
    intro row
    simp only [messageBranch?, hname]
    rfl
  have hbus : ∀ index (row : BusRow), busBranch t.forget index row.forget = busBranch t index row := by
    intro index row
    simp only [busBranch, SetTables.messagesOn_forget, List.filterMap_map, Function.comp_def, hbranch]
    rfl
  rw [dispatch, dispatch, SetTables.forget, List.zipIdx_map, List.map_map]
  exact List.map_congr_left fun entry _ => hbus entry.2 entry.1

namespace Firmware

theorem array_forget (declaration : String) {rows : SetTables → List Line}
    (h : ∀ set, rows set.forget = rows set) :
    array declaration tables.forget rows = array declaration tables rows := by
  rw [array, array, tables.flatMap_forget]
  intro set
  rw [h]
  rfl

theorem branches_forget (declaration : String) {body : SetTables → List Line}
    (h : ∀ set, body set.forget = body set) :
    branches declaration tables.forget body = branches declaration tables body := by
  rw [branches, branches, tables.flatMap_forget]
  intro set
  rw [h]
  rfl

theorem messageSets_forget : messageSets tables.forget = messageSets tables := by
  rw [messageSets, messageSets, tables.length_forget, Tables.forget, List.map_map]
  refine congrArg (_ ++ · ++ _) (List.map_congr_left fun set _ => ?_)
  simp [SetTables.forget]

theorem buses_forget : buses tables.forget = buses tables :=
  congrArg (_ :: ·) (array_forget tables _ fun _ => List.flatMap_map ..)

theorem messages_forget : messages tables.forget = messages tables := by
  rw [messages, messages, tables.maxMessageCount_forget]
  exact congrArg (_ :: ·) (array_forget tables _ fun _ => List.map_map ..)

theorem signalStates_forget : signalStates tables.forget = signalStates tables := by
  rw [signalStates, signalStates, tables.maxSignalCount_forget]
  refine congrArg (_ ++ ·) (array_forget tables _ fun set => ?_)
  rw [set.stateTable_forget]

theorem signals_forget : signals tables.forget = signals tables :=
  array_forget tables _ fun _ => List.map_map ..

theorem decoder_forget : decoder tables.forget = decoder tables := by
  refine branches_forget tables _ fun set => ?_
  rw [dispatch_forget]
  rfl

theorem commands_forget : commands tables.forget = commands tables := by
  rw [commands, commands, tables.maxCommandCount_forget]
  exact congrArg (_ :: ·) (array_forget tables _ fun _ => rfl)

theorem requests_forget : requests tables.forget = requests tables := by
  rw [requests, requests, tables.maxRequestCount_forget]
  exact congrArg (_ :: ·) (array_forget tables _ fun _ => rfl)

theorem pieces_forget (extra : List String) : pieces tables.forget extra = pieces tables extra := by
  have hinitializers : initializers tables.forget = initializers tables :=
    branches_forget tables _ fun _ => rfl
  have hloopers : loopers tables.forget = loopers tables := branches_forget tables _ fun _ => rfl
  rw [pieces, pieces, messageSets_forget, buses_forget, messages_forget, signalStates_forget,
    signals_forget, hinitializers, hloopers, commands_forget, requests_forget, decoder_forget]

end Firmware

namespace Script

theorem rows_forget {lines : SetTables → List Line} (h : ∀ set, lines set.forget = lines set) :
    rows tables.forget lines = rows tables lines := by
  rw [rows, rows, tables.flatMap_forget]
  intro set
  rw [h]
  rfl

theorem hookFunction_forget (name : String) {hooks : SetTables → List String}
    (h : ∀ set, hooks set.forget = hooks set) :
    hookFunction name tables.forget hooks = hookFunction name tables hooks := by
  have hempty : tables.forget.sets.isEmpty = tables.sets.isEmpty := List.isEmpty_map ..
  rw [hookFunction, hookFunction, hempty, tables.flatMap_forget]
  intro set
  rw [h]
  rfl

theorem messageSets_forget : messageSets tables.forget = messageSets tables := by
  rw [messageSets, messageSets, tables.length_forget, tables.flatMap_forget]
  intro set
  simp [SetTables.forget]

theorem buses_forget : buses tables.forget = buses tables :=
  congrArg (_ ++ ·) (rows_forget tables fun _ => List.flatMap_map ..)

theorem messages_forget : messages tables.forget = messages tables := by
  rw [messages, messages, tables.maxMessageCount_forget]
  exact congrArg (_ ++ ·) (rows_forget tables fun set => List.flatMap_map ..)

theorem signalStates_forget : signalStates tables.forget = signalStates tables := by
  rw [signalStates, signalStates, tables.maxSignalCount_forget]
  refine congrArg (_ ++ ·) (rows_forget tables fun set => ?_)
  rw [set.stateTable_forget]

theorem signals_forget : signals tables.forget = signals tables :=
  congrArg (_ :: ·) (rows_forget tables fun _ => List.flatMap_map ..)

theorem commands_forget : commands tables.forget = commands tables := by
  rw [commands, commands, tables.maxCommandCount_forget]
  exact congrArg (_ ++ ·) (rows_forget tables fun _ => rfl)

theorem requests_forget : requests tables.forget = requests tables := by
  rw [requests, requests, tables.maxRequestCount_forget]
  exact congrArg (_ ++ ·) (rows_forget tables fun _ => rfl)

theorem pieces_forget : pieces tables.forget = pieces tables := by
  have hinitializers : initializers tables.forget = initializers tables :=
    hookFunction_forget tables _ fun _ => rfl
  have hloopers : loopers tables.forget = loopers tables := hookFunction_forget tables _ fun _ => rfl
  rw [pieces, pieces, messageSets_forget, buses_forget, messages_forget, signalStates_forget,
    signals_forget, hinitializers, hloopers, commands_forget, requests_forget]

end Script

end Emit

/-- Tables give the same source without their references. -/
theorem emit_forget (target : Target) (t : Tables) (extra : List String) :
    emit target t.forget extra = emit target t extra := by
  cases target with
  | cpp => exact congrArg (render _) (Firmware.pieces_forget t extra)
  | python => exact congrArg (render _) (Script.pieces_forget t)

end CanTables
