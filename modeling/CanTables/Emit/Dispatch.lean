import CanTables.Tables.Row

/-!
# CanTables.Emit.Dispatch — which message is decoded how

The firmware decodes a received message by branching on the active message set, on the controller
that received it, and on the message's identifier.  A branch first calls the message's handlers and
then decodes the message's signals, each named by its position in the signal table.  Messages with
neither have no branch.
-/

namespace CanTables.Emit

/-- The decoding of one signal, by its position in the signal table. -/
structure SignalCall where
  signalIndex : Nat
  /-- The signal's name, for the reader. -/
  name : String
  deriving DecidableEq, Repr

/-- What is done with one message. -/
structure MessageBranch where
  id : UInt32
  /-- The message's name, for the reader. -/
  label : String
  handlers : List String
  signalCalls : List SignalCall
  deriving DecidableEq, Repr

/-- What is done with the messages of one bus. -/
structure BusBranch where
  controller : UInt8
  messages : List MessageBranch
  /-- Messages are also passed on undecoded. -/
  passesRaw : Bool
  deriving DecidableEq, Repr

/-- The branch of a message that has signals or handlers. -/
def messageBranch? (t : SetTables) (row : MessageRow) : Option MessageBranch :=
  if row.signals.isEmpty && row.message.handlers.isEmpty then none
  else
    some {
      id := row.message.id
      label := row.message.label
      handlers := row.message.handlers
      signalCalls := row.signals.map fun index =>
        ⟨index, ((t.signals[index]?).map (·.signal.name)).getD ""⟩ }

/-- The branch of the bus at a position of the bus table. -/
def busBranch (t : SetTables) (index : Nat) (row : BusRow) : BusBranch where
  controller := row.controller
  messages := (t.messagesOn index).filterMap (messageBranch? t)
  passesRaw := row.bus.rawMode != .off

/-- The branches of all buses of a set, in the order of the bus table. -/
def dispatch (t : SetTables) : List BusBranch :=
  t.buses.zipIdx.map fun (row, index) => busBranch t index row

end CanTables.Emit
