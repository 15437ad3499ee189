import CanTables.MessageSet.Basic

/-!
# CanTables.Tables.Row — rows of the emitted tables

The emitted source consists of tables, and rows refer to each other by their positions.  A row holds
everything that is written for it, so that writing a table needs no other table and no message set:
what a language makes of a row depends on the row alone.
-/

namespace CanTables

open Numeric

/-- Most states that are emitted for a signal. -/
def maxSignalStates : Nat := 12

/-- Buses that a message set may have in its bus table. -/
def maxBusCount : Nat := 2

/-- A row of the bus table. -/
structure BusRow where
  ref : Bus.Ref
  bus : Bus
  deriving DecidableEq, Repr

/-- The address that a bus is attached to. -/
def BusRow.controller (r : BusRow) : UInt8 := r.bus.controller.getD 0

/-- A row of the message table. -/
structure MessageRow where
  ref : Message.Ref
  message : Message
  /-- The position of the message's bus in the bus table. -/
  busIndex : Nat
  maxFrequency : Single
  /-- The positions of the message's signals in the signal table. -/
  signals : List Nat
  deriving DecidableEq, Repr

/-- The emitted states of a signal and their position in the state table. -/
structure StateBlock where
  index : Nat
  states : List SignalState
  deriving DecidableEq, Repr

/-- A row of the signal table. -/
structure SignalRow where
  ref : Signal.Ref
  signal : Signal
  /-- The position of the signal's message in the message table. -/
  messageIndex : Nat
  /-- The position of the signal's first bit in the emitted numbering. -/
  bitPosition : UInt32
  bitSize : UInt32
  maxFrequency : Single
  forceSendChanged : Bool
  states : Option StateBlock
  deriving DecidableEq, Repr

/-- A row of the diagnostic request table. -/
structure RequestRow where
  /-- The position of the request's bus in the bus table. -/
  busIndex : Nat
  request : Request
  deriving DecidableEq, Repr

/-- The tables of one message set. -/
structure SetTables where
  /-- The position of the set among all sets. -/
  index : Nat
  name : String
  buses : List BusRow
  messages : List MessageRow
  signals : List SignalRow
  commands : List Command
  requests : List RequestRow
  initializers : List String
  loopers : List String
  extraSources : List String
  deriving DecidableEq, Repr

namespace SetTables

/-- The signal rows with states, in the order of the state table. -/
def stateRows (t : SetTables) : List SignalRow := t.signals.filter (·.states.isSome)

/-- The state table: the emitted states of every signal that has any. -/
def stateTable (t : SetTables) : List (List SignalState) :=
  t.signals.filterMap fun row => row.states.map StateBlock.states

/-- The message rows on the bus at a position of the bus table. -/
def messagesOn (t : SetTables) (busIndex : Nat) : List MessageRow :=
  t.messages.filter (·.busIndex == busIndex)

end SetTables

/-- What was left out of the tables. -/
structure Tally where
  skippedMessages : Nat
  skippedSignals : Nat
  skippedCommands : Nat
  /-- States beyond those that are emitted, of all signals together. -/
  droppedStates : Nat
  deriving DecidableEq, Repr

namespace Tally

/-- Nothing was left out. -/
def zero : Tally := ⟨0, 0, 0, 0⟩

/-- What was left out here and there. -/
def add (a b : Tally) : Tally where
  skippedMessages := a.skippedMessages + b.skippedMessages
  skippedSignals := a.skippedSignals + b.skippedSignals
  skippedCommands := a.skippedCommands + b.skippedCommands
  droppedStates := a.droppedStates + b.droppedStates

instance : Add Tally := ⟨add⟩

end Tally

/-- The tables of several message sets that are compiled together, and what was left out. -/
structure Tables where
  sets : List SetTables
  tally : Tally
  deriving DecidableEq, Repr

namespace Tables

/-- The largest count over all sets. -/
def largest (t : Tables) (count : SetTables → Nat) : Nat :=
  t.sets.foldr (fun s most => max (count s) most) 0

/-- Rows that the longest message table has. -/
def maxMessageCount (t : Tables) : Nat := t.largest (·.messages.length)

/-- Rows that the longest signal table has. -/
def maxSignalCount (t : Tables) : Nat := t.largest (·.signals.length)

/-- Rows that the longest command table has. -/
def maxCommandCount (t : Tables) : Nat := t.largest (·.commands.length)

/-- Rows that the longest diagnostic request table has. -/
def maxRequestCount (t : Tables) : Nat := t.largest (·.requests.length)

/-- The names of all extra source files, set by set. -/
def extraSources (t : Tables) : List String := t.sets.flatMap (·.extraSources)

end Tables

end CanTables
