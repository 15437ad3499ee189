import CanTables.Emit.Line
import CanTables.MessageSet.Derived
import CanTables.Numeric.Fixed
import CanTables.Settings
import CanTables.Tables.Row
import CanTables.Text.Literal

/-!
# CanTables.Emit.Script — Python records

For small interpreters every table is one flat list, the rows of all message sets behind each other;
a row is a dictionary that is filled key by key and then appended.  Decoding is left to whoever reads
the records, so there is no dispatch, and extra source files are not copied.
-/

namespace CanTables.Emit.Script

open Line Text

/-! ## Fragments -/

/-- What separates a comment from the code in front of it. -/
def separator (code : String) : String := if code = "" then "# " else "  # "

/-- A truth value. -/
def truth (b : Bool) : String := if b then "True" else "False"

/-- A text, or nothing. -/
def optionalText (text : Option String) : String := (text.map Literal.quote).getD "None"

/-- A number. -/
def number (n : Nat) : String := Digits.decimal n

/-- A constant. -/
def constant (name : String) (value : Nat) : Line := bare (name ++ " = " ++ number value)

/-- An empty list. -/
def emptyList (name : String) : Line := bare (name ++ " = []")

/-- What is appended to a list. -/
def append (list item : String) : Line := bare (list ++ ".append(" ++ item ++ ")")

/-- A dictionary with a name that is filled and appended to a table. -/
def record (name table : String) (entries : List (String × String)) : List Line :=
  [bare (name ++ " = \x7b\x7d")] ++
    entries.map (fun (key, value) => bare (name ++ "['" ++ key ++ "'] = " ++ value)) ++
    [append table name, blank]

/-- What a reader is told about the set that lines belong to. -/
def setNote (t : SetTables) : String := "message set: " ++ t.name

/-- The rows of a table, set by set. -/
def rows (tables : Tables) (lines : SetTables → List Line) : List Line :=
  tables.sets.flatMap (fun t => noted "" (setNote t) :: lines t) ++ [blank]

/-! ## Sections -/

/-- The version of the tables. -/
def header : List Line :=
  [bare ("GENERATED_CODE_VERSION = " ++ Literal.quote Target.python.version), blank]

/-- The table of message sets. -/
def messageSets (tables : Tables) : List Line :=
  [constant "MESSAGE_SET_COUNT" tables.sets.length, emptyList "MESSAGE_SETS"] ++
    tables.sets.flatMap fun t =>
      record "set" "MESSAGE_SETS"
        [("index", number t.index), ("name", Literal.quote t.name),
          ("busCount", number t.buses.length), ("messageCount", number t.messages.length),
          ("signalCount", number t.signals.length), ("commandCount", number t.commands.length)]

/-- The position of the set that a row belongs to. -/
def setEntry (t : SetTables) : String × String := ("message_set_index", number t.index)

/-- The bus table. -/
def buses (tables : Tables) : List Line :=
  [constant "MAX_CAN_BUS_COUNT" maxBusCount, emptyList "CAN_BUSES"] ++
    rows tables fun t => t.buses.flatMap fun row =>
      record "bus" "CAN_BUSES"
        [setEntry t, ("bus_speed", number row.bus.speed.toNat),
          ("address", number row.controller.toNat),
          ("raw_writable", truth row.bus.rawWritable)]

/-- The message table. -/
def messages (tables : Tables) : List Line :=
  [constant "MAX_MESSAGE_COUNT" tables.maxMessageCount, emptyList "CAN_MESSAGES"] ++
    rows tables fun t => t.messages.flatMap fun row =>
      record "message" "CAN_MESSAGES"
        [setEntry t, ("bus_index", number row.busIndex), ("id", number row.message.id.toNat),
          ("name", Literal.quote row.message.label)]

/-- The states of one signal. -/
def stateLines (states : List SignalState) : List Line :=
  [emptyList "states"] ++
    states.map (fun state =>
      append "states"
        ("\x7b'value': " ++ Digits.decimal state.value ++ ", 'name': " ++
          Literal.quote state.name ++ "\x7d")) ++
    [append "SIGNAL_STATES" "states", blank]

/-- The state table. -/
def signalStates (tables : Tables) : List Line :=
  [constant "MAX_SIGNAL_STATES" maxSignalStates,
    constant "MAX_SIGNAL_COUNT" tables.maxSignalCount, emptyList "SIGNAL_STATES"] ++
    rows tables fun t => t.stateTable.flatMap stateLines

/-- Where the states of a signal are, and how many there are. -/
def stateEntries (states : Option StateBlock) : List (String × String) :=
  match states with
  | some block =>
    [("states_index", number block.index), ("state_count", number block.states.length)]
  | none => []

/-- The entries of a signal. -/
def signalEntries (t : SetTables) (row : SignalRow) : List (String × String) :=
  let x := row.signal
  [setEntry t, ("message_index", number row.messageIndex),
      ("generic_name", Literal.quote x.genericName),
      ("bit_position", number row.bitPosition.toNat), ("bit_size", number row.bitSize.toNat),
      ("factor", x.factor.fixed), ("offset", x.offset.fixed), ("min_value", x.minValue.fixed),
      ("max_value", x.maxValue.fixed), ("max_frequency", row.maxFrequency.fixed),
      ("send_same", truth x.sendSame), ("force_send_changed", truth row.forceSendChanged)] ++
    stateEntries row.states ++
    [("writable", truth x.writable), ("decoder", optionalText x.effectiveDecoder),
      ("encoder", optionalText x.effectiveEncoder), ("name", Literal.quote x.name)]

/-- The signal table. -/
def signals (tables : Tables) : List Line :=
  emptyList "SIGNALS" ::
    rows tables fun t => t.signals.flatMap fun row =>
      record "signal" "SIGNALS" (signalEntries t row)

/-- The hooks of one set. -/
def hookLines (t : SetTables) (hooks : List String) : List Line :=
  noted ("    if message_set_index == " ++ number t.index ++ ":") (setNote t) ::
    (if hooks.isEmpty then [bare "        pass"]
      else hooks.map fun hook => bare ("        " ++ hook ++ "()"))

/-- A function that calls the hooks of the set it is given. -/
def hookFunction (name : String) (tables : Tables) (hooks : SetTables → List String) :
    List Line :=
  [bare ("def " ++ name ++ "(message_set_index):")] ++
    (if tables.sets.isEmpty then [bare "    pass"] else []) ++
    tables.sets.flatMap (fun t => hookLines t (hooks t)) ++ [blank]

/-- The function that is called once at the start. -/
def initializers (tables : Tables) : List Line :=
  hookFunction "openxc_signals_initialize" tables SetTables.initializers

/-- The function that is called again and again. -/
def loopers (tables : Tables) : List Line :=
  hookFunction "openxc_signals_loop" tables SetTables.loopers

/-- The command table. -/
def commands (tables : Tables) : List Line :=
  [constant "MAX_COMMAND_COUNT" tables.maxCommandCount, emptyList "COMMANDS"] ++
    rows tables fun t => t.commands.flatMap fun c =>
      record "command" "COMMANDS"
        [setEntry t, ("name", Literal.quote c.name), ("handler", optionalText c.handler)]

/-- The entries of a diagnostic request. -/
def requestEntries (t : SetTables) (row : RequestRow) : List (String × String) :=
  let r := row.request
  [setEntry t, ("bus_index", number row.busIndex), ("id", number r.id.toNat),
    ("mode", number r.mode.toNat), ("pid", (r.pid.map fun pid => number pid.toNat).getD "None"),
    ("pid_length", number r.pidLength.toNat), ("frequency", r.frequency.fixed),
    ("decoder", optionalText r.decoder), ("callback", optionalText r.callback),
    ("multiple_responses", truth r.multipleResponses), ("name", optionalText r.name)]

/-- The diagnostic request table. -/
def requests (tables : Tables) : List Line :=
  [constant "MAX_DIAGNOSTIC_REQUEST_COUNT" tables.maxRequestCount,
    emptyList "DIAGNOSTIC_REQUESTS"] ++
    rows tables fun t => t.requests.flatMap fun row =>
      record "request" "DIAGNOSTIC_REQUESTS" (requestEntries t row)

/-- The whole source. -/
def pieces (tables : Tables) : List Piece :=
  Piece.lines
    (header ++ messageSets tables ++ buses tables ++ messages tables ++ signalStates tables ++
      signals tables ++ initializers tables ++ loopers tables ++ commands tables ++
      requests tables)

end CanTables.Emit.Script
