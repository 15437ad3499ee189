import CanTables.MessageSet.Basic
import CanTables.Order.Sorting
import CanTables.Payload.Numbering

/-!
# CanTables.MessageSet.Derived — what follows from a message set

Many properties are inherited: a signal is enabled only if its message is, a message only if its bus
is attached to a controller; a frequency, a bit numbering or a change filter that a signal does not
set comes from its message, and one that a message does not set from its bus or its set.

The lists of this module are in the order in which the emitted tables have their rows: buses by
controller address, messages as their bus lists them, signals as their message lists them, commands
by name, diagnostic requests by bus, identifier, mode and parameter.
-/

namespace CanTables

open Numeric Payload Sorting

/-- The controllers that a bus may be attached to. -/
def controllerAddresses : List UInt8 := [1, 2]

/-- The decoder of ignored signals. -/
def ignoreDecoder : String := "openxc::signals::handlers::ignoreDecoder"

/-- The decoder of enumerated signals. -/
def stateDecoder : String := "openxc::signals::handlers::stateDecoder"

/-- The encoder of writable enumerated signals. -/
def stateEncoder : String := "openxc::signals::handlers::stateEncoder"

/-- Attached to one of the controllers. -/
def Bus.isValid (b : Bus) : Bool := b.controller.any controllerAddresses.contains

namespace Signal

/-- The decoder that is set, or the one that being ignored or enumerated implies. -/
def effectiveDecoder (s : Signal) : Option String :=
  s.decoder.or
    (if s.ignore then some ignoreDecoder
      else if s.states.isEmpty then none
      else some stateDecoder)

/-- The encoder that is set, or the one that being writable and enumerated implies. -/
def effectiveEncoder (s : Signal) : Option String :=
  s.encoder.or (if s.writable && !s.states.isEmpty then some stateEncoder else none)

end Signal

namespace MessageSet

/-! ## Inherited properties -/

/-- The bus at a position is attached to a controller. -/
def busValid (s : MessageSet) (r : Bus.Ref) : Bool := (s.bus? r).any Bus.isValid

/-- The message is enabled itself and is on a valid bus. -/
def enabledMessage (s : MessageSet) (m : Message) : Bool := m.enabled && m.bus.any s.busValid

/-- The message at a position is enabled. -/
def messageEnabled (s : MessageSet) (r : Message.Ref) : Bool :=
  (s.message? r).any s.enabledMessage

/-- The highest rate of a message: its own, or that of its bus. -/
def messageMaxFrequency (s : MessageSet) (m : Message) : Single :=
  m.maxFrequency.getD
    (((m.bus.bind s.bus?).map Bus.maxMessageFrequency).getD (.zero .single false))

/-- Whether the bits of a message are numbered the inverted way. -/
def messageInverted (s : MessageSet) (m : Message) : Bool :=
  m.bitNumberingInverted.getD s.bitNumberingInverted

/-- The signal is enabled itself and so is its message. -/
def enabledSignal (s : MessageSet) (x : Signal) : Bool := x.enabled && s.messageEnabled x.message

/-- The signal at a position is enabled. -/
def signalEnabled (s : MessageSet) (r : Signal.Ref) : Bool := (s.signal? r).any s.enabledSignal

/-- The highest rate of a signal: its own, or that of its message's signals. -/
def signalMaxFrequency (s : MessageSet) (x : Signal) : Single :=
  (x.maxFrequency.or ((s.message? x.message).bind Message.maxSignalFrequency)).getD
    (.zero .single false)

/-- Whether a signal is sent on every change. -/
def signalForceSendChanged (s : MessageSet) (x : Signal) : Bool :=
  x.forceSendChanged.getD ((s.message? x.message).any Message.forceSendChangedSignals)

/-- Whether the bits of a signal are numbered the inverted way. -/
def signalInverted (s : MessageSet) (x : Signal) : Bool :=
  x.bitNumberingInverted.getD
    (((s.message? x.message).map s.messageInverted).getD s.bitNumberingInverted)

/-- The position of a signal in the emitted numbering, if it has a position at all. -/
def signalPosition (s : MessageSet) (x : Signal) : Except InversionFault (Option UInt32) :=
  match x.bitPosition, x.bitSize with
  | some position, some size =>
    if s.signalInverted x then (invertPosition position size).map some else .ok (some position)
  | position, _ => .ok position

/-! ## Rows in table order -/

/-- All buses with their positions. -/
def busRefs (s : MessageSet) : List (Bus.Ref × Bus) :=
  s.buses.zipIdx.map fun (bus, index) => (⟨index⟩, bus)

/-- The buses attached to a controller, by its address. -/
def validBuses (s : MessageSet) : List (Bus.Ref × Bus) :=
  sortBy (byKey fun entry => entry.2.controller.getD 0)
    (s.busRefs.filter fun entry => entry.2.isValid)

/-- The messages on valid buses. -/
def allMessages (s : MessageSet) : List (Message.Ref × Message) :=
  s.validBuses.flatMap fun (_, bus) =>
    bus.messages.filterMap fun r => (s.message? r).map fun m => (r, m)

/-- The enabled messages. -/
def activeMessages (s : MessageSet) : List (Message.Ref × Message) :=
  s.allMessages.filter fun (_, m) => s.enabledMessage m

/-- The signals of the messages on valid buses. -/
def allSignals (s : MessageSet) : List (Signal.Ref × Signal) :=
  s.allMessages.flatMap fun (_, m) =>
    m.signals.filterMap fun r => (s.signal? r).map fun x => (r, x)

/-- The enabled signals. -/
def activeSignals (s : MessageSet) : List (Signal.Ref × Signal) :=
  s.allSignals.filter fun (_, x) => s.enabledSignal x

/-- The commands by name. -/
def allCommands (s : MessageSet) : List Command := sortBy (byKey Command.name) s.commands

/-- The enabled commands by name. -/
def activeCommands (s : MessageSet) : List Command := s.allCommands.filter Command.enabled

/-- What diagnostic requests are sorted by. -/
def requestKey (r : Request) : Option String × UInt32 × UInt32 × Option UInt32 :=
  (r.busName, r.id, r.mode, r.pid)

/-- One diagnostic request comes before another: by bus, identifier, mode and parameter. -/
def requestLt (a b : Request) : Bool :=
  thenLt optionLt (thenLt (· < ·) (thenLt (· < ·) optionLt)) (requestKey a) (requestKey b)

/-- The enabled diagnostic requests in order. -/
def activeRequests (s : MessageSet) : List Request :=
  sortBy (fun a b => !requestLt b a) (s.requests.filter Request.enabled)

end MessageSet

end CanTables
