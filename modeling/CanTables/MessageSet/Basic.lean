import CanTables.Numeric.Floating
import CanTables.RawMode

/-!
# CanTables.MessageSet.Basic — assembled message sets

A message set is what remains of its configuration files once all layers are merged: buses,
messages, signals, commands, diagnostic requests, hooks and extra source files.  Buses, messages
and signals stand in three lists and refer to each other by their position in these lists
(`Bus.Ref`, `Message.Ref`, `Signal.Ref`).

An assembled set has only references that lead somewhere.  A set from elsewhere may be
inconsistent, so looking a reference up yields an option, and a property of something that is not
there is the one that keeps it out of every table.
-/

namespace CanTables

open Numeric

/-! ## References -/

/-- The position of a bus in its message set. -/
structure Bus.Ref where
  index : Nat
  deriving DecidableEq, Repr

/-- The position of a message in its message set. -/
structure Message.Ref where
  index : Nat
  deriving DecidableEq, Repr

/-- The position of a signal in its message set. -/
structure Signal.Ref where
  index : Nat
  deriving DecidableEq, Repr

/-! ## Parts of a message set -/

/-- One CAN channel. -/
structure Bus where
  name : String
  /-- Bits per second. -/
  speed : UInt32
  /-- The address of the controller that the bus is attached to. -/
  controller : Option UInt8
  maxMessageFrequency : Single
  rawMode : RawMode
  rawWritable : Bool
  loopback : Bool
  /-- The messages on the bus. -/
  messages : List Message.Ref
  deriving DecidableEq, Repr

/-- One CAN frame identifier with its signals. -/
structure Message where
  id : UInt32
  name : Option String
  /-- The bus that the configuration names. -/
  busName : Option String
  /-- The bus of the set that has that name. -/
  bus : Option Bus.Ref
  enabled : Bool
  bitNumberingInverted : Option Bool
  maxFrequency : Option Single
  maxSignalFrequency : Option Single
  forceSendChanged : Bool
  forceSendChangedSignals : Bool
  handlers : List String
  signals : List Signal.Ref
  deriving DecidableEq, Repr

/-- A raw value of an enumerated signal, with its name. -/
structure SignalState where
  value : Int
  name : String
  deriving DecidableEq, Repr

/-- One quantity that is part of a message. -/
structure Signal where
  message : Message.Ref
  /-- The key under which the configuration describes the signal. -/
  name : String
  genericName : String
  /-- The bit position as configured, in whichever numbering applies. -/
  bitPosition : Option UInt32
  bitSize : Option UInt32
  factor : Double
  offset : Double
  minValue : Double
  maxValue : Double
  enabled : Bool
  ignore : Bool
  maxFrequency : Option Single
  sendSame : Bool
  forceSendChanged : Option Bool
  bitNumberingInverted : Option Bool
  writable : Bool
  decoder : Option String
  encoder : Option String
  states : List SignalState
  deriving DecidableEq, Repr

/-- A named operation of the control interface. -/
structure Command where
  name : String
  handler : Option String
  enabled : Bool
  deriving DecidableEq, Repr

/-- A diagnostic request that is sent again and again. -/
structure Request where
  name : Option String
  busName : Option String
  id : UInt32
  mode : UInt32
  pid : Option UInt32
  pidLength : UInt8
  frequency : Single
  decoder : Option String
  callback : Option String
  multipleResponses : Bool
  enabled : Bool
  deriving DecidableEq, Repr

/-- One vehicle variant. -/
structure MessageSet where
  name : String
  bitNumberingInverted : Bool
  buses : List Bus
  messages : List Message
  signals : List Signal
  commands : List Command
  requests : List Request
  initializers : List String
  loopers : List String
  /-- Names of source files to copy into the output, in order, each once. -/
  extraSources : List String
  deriving DecidableEq, Repr

namespace MessageSet

/-! ## Looking things up -/

/-- The bus at a position. -/
def bus? (s : MessageSet) (r : Bus.Ref) : Option Bus := s.buses[r.index]?

/-- The message at a position. -/
def message? (s : MessageSet) (r : Message.Ref) : Option Message := s.messages[r.index]?

/-- The signal at a position. -/
def signal? (s : MessageSet) (r : Signal.Ref) : Option Signal := s.signals[r.index]?

/-- The first bus with a name. -/
def busNamed? (s : MessageSet) (name : String) : Option Bus.Ref :=
  (s.buses.findIdx? fun bus => bus.name == name).map Bus.Ref.mk

/-- The first message with an identifier that names a bus. -/
def findMessage? (s : MessageSet) (busName : String) (id : UInt32) : Option Message.Ref :=
  (s.messages.findIdx? fun message => message.id == id && message.busName == some busName).map
    Message.Ref.mk

/-- The first signal of a message with a generic name. -/
def findSignal? (s : MessageSet) (message : Message.Ref) (genericName : String) :
    Option Signal.Ref :=
  (s.message? message).bind fun m =>
    m.signals.find? fun r => (s.signal? r).any fun signal => signal.genericName == genericName

end MessageSet

/-- The name of a message in comments and reports, empty if it has none. -/
def Message.label (m : Message) : String := m.name.getD ""

end CanTables
