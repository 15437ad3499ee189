import CanTables.Emit.Dispatch
import CanTables.Emit.Line
import CanTables.MessageSet.Derived
import CanTables.Numeric.Fixed
import CanTables.Settings
import CanTables.Text.Literal

/-!
# CanTables.Emit.Firmware — C++ tables and decode dispatch

For the firmware every table is a two-dimensional array, one row of rows per message set; the set in
use is chosen at run time.  The initializers, the loopers and the decode dispatch are functions that
branch on the set in use.

The sections follow one another in a fixed order; each is a list of lines.
-/

namespace CanTables.Emit.Firmware

open Line Text

/-! ## Fragments -/

/-- What separates a comment from the code in front of it. -/
def separator (_code : String) : String := " // "

/-- A truth value. -/
def truth (b : Bool) : String := if b then "true" else "false"

/-- A number of table rows, a position, an address. -/
def number (n : Nat) : String := Digits.decimal n

/-- An identifier. -/
def hex (id : UInt32) : String := "0x" ++ Digits.hex id.toNat

/-- A function's name, or no function. -/
def function (name : Option String) : String := name.getD "NULL"

/-- A text, or no text. -/
def optionalText (text : Option String) : String := (text.map Literal.quote).getD "NULL"

/-- Fragments with commas between them. -/
def commas (fragments : List String) : String := ", ".intercalate fragments

/-- A group of fragments. -/
def group (fragments : List String) : String := "\x7b" ++ commas fragments ++ "\x7d"

/-- A group of fragments with blanks inside the braces. -/
def spaced (fragments : List String) : String := "\x7b " ++ commas fragments ++ " \x7d"

/-- The element of a table that belongs to a set. -/
def element (table : String) (set row : Nat) : String :=
  table ++ "[" ++ number set ++ "][" ++ number row ++ "]"

/-- A constant. -/
def constant (name : String) (value : Nat) : Line :=
  bare ("const int " ++ name ++ " = " ++ number value ++ ";")

/-- The name of a raw traffic mode. -/
def rawMode : RawMode → String
  | .off => "RawCanMode::OFF"
  | .filtered => "RawCanMode::FILTERED"
  | .unfiltered => "RawCanMode::UNFILTERED"

/-- What a reader is told about the set that lines belong to. -/
def setNote (t : SetTables) : String := "message set: " ++ t.name

/-- The lines of an array: its declaration, one group of rows per set, and its end. -/
def array (declaration : String) (tables : Tables) (rows : SetTables → List Line) : List Line :=
  [bare (declaration ++ " = \x7b")] ++
    tables.sets.flatMap (fun t =>
      [noted "    \x7b" (setNote t)] ++ rows t ++ [bare "    \x7d,"]) ++
    [bare "\x7d;", blank]

/-- The lines of a function: its declaration, one branch per set, and its end. -/
def branches (declaration : String) (tables : Tables) (body : SetTables → List Line) :
    List Line :=
  [bare (declaration ++ " \x7b"), bare "    switch(getConfiguration()->messageSetIndex) \x7b"] ++
    tables.sets.flatMap (fun t =>
      [noted ("    case " ++ number t.index ++ ":") (setNote t)] ++ body t ++
        [bare "        break;"]) ++
    [bare "    \x7d", bare "\x7d", blank]

/-! ## Sections -/

/-- Declarations that the tables rely on, and the version of the tables. -/
def header : List Line :=
  ["#include <stdint.h>",
    "#include <stdlib.h>",
    "#include \"can/canread.h\"",
    "#include \"can/canwrite.h\"",
    "#include \"signals.h\"",
    "#include \"diagnostics.h\"",
    "#include \"config.h\"",
    "#include \"util/log.h\"",
    "#include \"shared_handlers.h\"",
    "",
    "namespace can = openxc::can;",
    "",
    "using openxc::pipeline::Pipeline;",
    "using openxc::config::getConfiguration;",
    "using openxc::signals::handlers::ignoreDecoder;",
    "using openxc::signals::handlers::stateDecoder;",
    "using openxc::signals::handlers::stateEncoder;",
    "const char* openxc::signals::GENERATED_CODE_VERSION = " ++
      Literal.quote Target.cpp.version ++ ";",
    ""].map bare

/-- The table of message sets. -/
def messageSets (tables : Tables) : List Line :=
  [constant "MESSAGE_SET_COUNT" tables.sets.length,
    bare "CanMessageSet MESSAGE_SETS[MESSAGE_SET_COUNT] = \x7b"] ++
    tables.sets.map (fun t =>
      bare ("    " ++ spaced
        [number t.index, Literal.quote t.name, number t.buses.length, number t.messages.length,
          number t.signals.length, number t.commands.length] ++ ",")) ++
    [bare "\x7d;", blank]

/-- A row of the bus table. -/
def busLines (row : BusRow) : List Line :=
  let controller := number row.controller.toNat
  [bare ("        \x7b " ++ commas
      [number row.bus.speed.toNat, controller, "can" ++ controller,
        row.bus.maxMessageFrequency.fixed, rawMode row.bus.rawMode, truth row.bus.rawWritable,
        truth row.bus.loopback] ++ ","),
    bare "            #ifdef __PIC32__",
    bare ("            handleCan" ++ controller ++ "Interrupt,"),
    noted "            #endif" "__PIC32__",
    bare "        \x7d,"]

/-- The bus tables. -/
def buses (tables : Tables) : List Line :=
  constant "MAX_CAN_BUS_COUNT" maxBusCount ::
    array "CanBus CAN_BUSES[][MAX_CAN_BUS_COUNT]" tables fun t => t.buses.flatMap busLines

/-- A row of the message table. -/
def messageLine (t : SetTables) (row : MessageRow) : Line :=
  noted
    ("        " ++ group
      ["&" ++ element "CAN_BUSES" t.index row.busIndex, hex row.message.id,
        group [row.maxFrequency.fixed], truth row.message.forceSendChanged] ++ ",")
    row.message.label

/-- The message tables. -/
def messages (tables : Tables) : List Line :=
  constant "MAX_MESSAGE_COUNT" tables.maxMessageCount ::
    array "CanMessageDefinition CAN_MESSAGES[][MAX_MESSAGE_COUNT]" tables fun t =>
      t.messages.map (messageLine t)

/-- The states of one signal. -/
def stateLine (states : List SignalState) : Line :=
  bare ("        \x7b " ++ String.join (states.map fun state =>
    group [Digits.decimal state.value, Literal.quote state.name] ++ ", ") ++ "\x7d,")

/-- The state tables. -/
def signalStates (tables : Tables) : List Line :=
  [constant "MAX_SIGNAL_STATES" maxSignalStates,
    constant "MAX_SIGNAL_COUNT" tables.maxSignalCount] ++
    array "const CanSignalState SIGNAL_STATES[][MAX_SIGNAL_COUNT][MAX_SIGNAL_STATES]" tables
      fun t => t.stateTable.map stateLine

/-- Where the states of a signal are, and how many there are. -/
def stateReference (t : SetTables) (states : Option StateBlock) : List String :=
  match states with
  | some block => [element "SIGNAL_STATES" t.index block.index, number block.states.length]
  | none => ["NULL", "0"]

/-- A row of the signal table. -/
def signalLine (t : SetTables) (row : SignalRow) : Line :=
  let x := row.signal
  noted
    ("        " ++ group
      (["&" ++ element "CAN_MESSAGES" t.index row.messageIndex, Literal.quote x.genericName,
          number row.bitPosition.toNat, number row.bitSize.toNat, x.factor.fixed, x.offset.fixed,
          x.minValue.fixed, x.maxValue.fixed, group [row.maxFrequency.fixed], truth x.sendSame,
          truth row.forceSendChanged] ++
        stateReference t row.states ++
        [truth x.writable, function x.effectiveDecoder, function x.effectiveEncoder]) ++ ",")
    x.name

/-- The signal tables. -/
def signals (tables : Tables) : List Line :=
  array "CanSignal SIGNALS[][MAX_SIGNAL_COUNT]" tables fun t => t.signals.map (signalLine t)

/-- A call of a function without arguments. -/
def hookLine (hook : String) : Line := bare ("        " ++ hook ++ "();")

/-- The function that is called once at the start. -/
def initializers (tables : Tables) : List Line :=
  branches "void openxc::signals::initialize()" tables fun t => t.initializers.map hookLine

/-- The function that is called again and again. -/
def loopers (tables : Tables) : List Line :=
  branches "void openxc::signals::loop()" tables fun t => t.loopers.map hookLine

/-- The command tables. -/
def commands (tables : Tables) : List Line :=
  constant "MAX_COMMAND_COUNT" tables.maxCommandCount ::
    array "CanCommand COMMANDS[][MAX_COMMAND_COUNT]" tables fun t =>
      t.commands.map fun c =>
        bare ("        " ++ spaced [Literal.quote c.name, function c.handler] ++ ",")

/-- A row of the diagnostic request table. -/
def requestLine (t : SetTables) (row : RequestRow) : Line :=
  let r := row.request
  bare ("        " ++ group
    ["&" ++ element "CAN_BUSES" t.index row.busIndex, hex r.id, hex r.mode,
      (r.pid.map hex).getD "0", number r.pidLength.toNat, r.frequency.fixed, function r.decoder,
      function r.callback, truth r.multipleResponses, optionalText r.name] ++ ",")

/-- The diagnostic request tables. -/
def requests (tables : Tables) : List Line :=
  constant "MAX_DIAGNOSTIC_REQUEST_COUNT" tables.maxRequestCount ::
    array "const DiagnosticRequestConfig DIAGNOSTIC_REQUESTS[][MAX_DIAGNOSTIC_REQUEST_COUNT]"
      tables fun t => t.requests.map (requestLine t)

/-! ## The decode dispatch -/

/-- The arguments with which every decoder is called, behind those of its own. -/
def decoderArguments (set : Nat) : String :=
  "data, SIGNALS[" ++ number set ++ "], getSignalCount(), pipeline);"

/-- What is done with one message. -/
def messageBranchLines (set : Nat) (branch : MessageBranch) : List Line :=
  [noted ("            case " ++ hex branch.id ++ ":") branch.label] ++
    branch.handlers.map (fun handler =>
      bare ("                " ++ handler ++ "(id, " ++ decoderArguments set)) ++
    branch.signalCalls.map (fun call =>
      noted
        ("                can::read::translateSignal(&" ++
          element "SIGNALS" set call.signalIndex ++ ", " ++ decoderArguments set)
        call.name) ++
    [bare "                break;"]

/-- What is done with the messages of one bus. -/
def busBranchLines (set : Nat) (branch : BusBranch) : List Line :=
  [bare ("        case " ++ number branch.controller.toNat ++ ":"),
    bare "            switch (id) \x7b"] ++
    branch.messages.flatMap (messageBranchLines set) ++
    [bare "            \x7d"] ++
    (if branch.passesRaw then
      [bare ("            can::read::passthroughMessage(bus, id, data, getMessages(), " ++
        "getMessageCount(), pipeline);")]
    else []) ++
    [bare "            break;"]

/-- The function that decodes a received message. -/
def decoder (tables : Tables) : List Line :=
  branches
    ("void openxc::signals::decodeCanMessage(Pipeline* pipeline, CanBus* bus, int id, " ++
      "uint64_t data)")
    tables fun t =>
      [bare "        switch(bus->address) \x7b"] ++
        (dispatch t).flatMap (busBranchLines t.index) ++ [bare "        \x7d"]

/-- A function without arguments that returns one expression. -/
def accessor (declaration expression : String) : List String :=
  [declaration ++ "() \x7b", "    return " ++ expression ++ ";", "\x7d"]

/-- A function that returns the table of the set in use. -/
def tableAccessor (type name table : String) : List String :=
  accessor (type ++ "* openxc::signals::" ++ name) (table ++ "[getActiveMessageSet()->index]")

/-- A function that returns the length of a table of the set in use. -/
def countAccessor (name count : String) : List String :=
  accessor ("int openxc::signals::" ++ name) ("getActiveMessageSet()->" ++ count)

/-- The functions through which the firmware reaches the tables. -/
def footer : List Line :=
  ([""].intercalate
    [accessor "CanMessageSet* openxc::signals::getActiveMessageSet"
        "&MESSAGE_SETS[getConfiguration()->messageSetIndex]",
      accessor "CanMessageSet* openxc::signals::getMessageSets" "MESSAGE_SETS",
      accessor "int openxc::signals::getMessageSetCount" "MESSAGE_SET_COUNT",
      tableAccessor "CanBus" "getCanBuses" "CAN_BUSES",
      countAccessor "getCanBusCount" "busCount",
      tableAccessor "CanMessageDefinition" "getMessages" "CAN_MESSAGES",
      countAccessor "getMessageCount" "messageCount",
      tableAccessor "CanSignal" "getSignals" "SIGNALS",
      countAccessor "getSignalCount" "signalCount",
      tableAccessor "CanCommand" "getCommands" "COMMANDS",
      countAccessor "getCommandCount" "commandCount",
      tableAccessor "const DiagnosticRequestConfig" "getDiagnosticRequests"
        "DIAGNOSTIC_REQUESTS"]).map bare

/-- The whole source, given the texts of the extra source files. -/
def pieces (tables : Tables) (extra : List String) : List Piece :=
  Piece.lines header ++ extra.map Piece.copied ++
    Piece.lines
      (messageSets tables ++ buses tables ++ messages tables ++ signalStates tables ++
        signals tables ++ initializers tables ++ loopers tables ++ commands tables ++
        requests tables ++ decoder tables ++ footer)

end CanTables.Emit.Firmware
