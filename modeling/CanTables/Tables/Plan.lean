import CanTables.Journal
import CanTables.MessageSet.Derived
import CanTables.Tables.Row

/-!
# CanTables.Tables.Plan — which rows the tables have

`Tables.ofSets` decides which messages, signals, commands and requests become rows, in which order,
and with which positions, once for all target languages.  Sets are ordered by name.

Each candidate is looked at on its own: it is reported and either becomes a row or does not, or the
whole plan fails because it cannot be placed.  Positions are given afterwards to the list of rows
that resulted, so they count rows and nothing else.
-/

namespace CanTables

open Payload Sorting Text

namespace MessageSet

/-! ## Buses and messages -/

/-- The rows of the bus table. -/
def busRows (s : MessageSet) : List BusRow := s.validBuses.map fun (ref, bus) => ⟨ref, bus⟩

/-- The position of a bus in the bus table. -/
def busIndex? (s : MessageSet) (r : Bus.Ref) : Option Nat :=
  s.busRows.findIdx? fun row => row.ref == r

/-- A message that becomes a row, with the position of its bus. -/
structure PlacedMessage where
  ref : Message.Ref
  message : Message
  busIndex : Nat

/-- Decides about one message of a valid bus. -/
def placeMessage (s : MessageSet) (entry : Message.Ref × Message) : Run (Option PlacedMessage) := do
  let origin := Origin.ofSet s.name
  let (ref, m) := entry
  if !s.enabledMessage m then
    Run.report origin .warn
      ("Skipping disabled message " ++ m.label ++ " (" ++ Fault.hex m.id ++ ")")
    return none
  else
    match m.bus.bind s.busIndex? with
    | none => return none
    | some busIndex =>
      Run.report origin .info ("Added message '" ++ m.label ++ "'")
      return some ⟨ref, m, busIndex⟩

/-- The position of the last element that satisfies a test. -/
def lastIndex? {α : Type} (test : α → Bool) (l : List α) : Option Nat :=
  ((l.zipIdx.filter fun entry => test entry.1).getLast?).map Prod.snd

/-! ## Signals -/

/-- A signal that becomes a row, with the position of its message and of its first bit. -/
structure PlacedSignal where
  ref : Signal.Ref
  signal : Signal
  messageIndex : Nat
  bitPosition : UInt32
  bitSize : UInt32

/-- The identifier of the message that a signal belongs to. -/
def ownerId (s : MessageSet) (x : Signal) : UInt32 :=
  ((s.message? x.message).map Message.id).getD 0

/-- The position and size of a signal in the emitted numbering. -/
def placement (s : MessageSet) (x : Signal) : Except Fault (UInt32 × UInt32) :=
  match s.signalPosition x with
  | .error fault => .error (.inversion s.name (s.ownerId x) x.genericName fault)
  | .ok position =>
    match position, x.bitSize with
    | some position, some size => .ok (position, size)
    | _, _ => .error (.invalidSet s.name)

/-- States of a signal that are too many to be emitted. -/
def droppedStates (x : Signal) : Nat := x.states.length - maxSignalStates

/-- Decides about one signal of a message on a valid bus, given the messages that became rows. -/
def placeSignal (s : MessageSet) (messages : List Message.Ref) (entry : Signal.Ref × Signal) :
    Run (Option PlacedSignal) := do
  let origin := Origin.ofSet s.name
  let (ref, x) := entry
  if !s.enabledSignal x then
    Run.report origin .warn
      ("Skipping disabled signal '" ++ x.genericName ++ "' (in " ++ Fault.hex (s.ownerId x) ++ ")")
    return none
  else
    match lastIndex? (· == x.message) messages with
    | none => return none
    | some messageIndex =>
      let (position, size) ← Run.lift (s.placement x)
      if 0 < droppedStates x then
        Run.report origin .warn
          ("Ignoring anything beyond " ++ toString maxSignalStates ++ " states for " ++
            x.genericName)
      Run.report origin .info ("Added signal '" ++ x.genericName ++ "'")
      return some ⟨ref, x, messageIndex, position, size⟩

/-- The rows of the signal table; the states of the signals that have any are numbered on from
`next`. -/
def signalRows (s : MessageSet) : Nat → List PlacedSignal → List SignalRow
  | _, [] => []
  | next, p :: rest =>
    let states : Option StateBlock :=
      if p.signal.states.isEmpty then none
      else some ⟨next, p.signal.states.take maxSignalStates⟩
    { ref := p.ref
      signal := p.signal
      messageIndex := p.messageIndex
      bitPosition := p.bitPosition
      bitSize := p.bitSize
      maxFrequency := s.signalMaxFrequency p.signal
      forceSendChanged := s.signalForceSendChanged p.signal
      states } :: s.signalRows (if states.isSome then next + 1 else next) rest

/-- The positions of the signals of the message at a position. -/
def signalsOf (signals : List PlacedSignal) (messageIndex : Nat) : List Nat :=
  signals.zipIdx.filterMap fun (p, index) =>
    if p.messageIndex = messageIndex then some index else none

/-- The rows of the message table. -/
def messageRows (s : MessageSet) (messages : List PlacedMessage) (signals : List PlacedSignal) :
    List MessageRow :=
  messages.zipIdx.map fun (p, index) =>
    { ref := p.ref
      message := p.message
      busIndex := p.busIndex
      maxFrequency := s.messageMaxFrequency p.message
      signals := signalsOf signals index }

/-! ## Commands and requests -/

/-- The journal line about a command. -/
def commandEntry (s : MessageSet) (c : Command) : Entry :=
  if c.enabled then (Origin.ofSet s.name).entry .info ("Added command '" ++ c.name ++ "'")
  else (Origin.ofSet s.name).entry .warn ("Skipping disabled command " ++ c.name)

/-- Decides about one enabled diagnostic request. -/
def placeRequest (s : MessageSet) (r : Request) : Run RequestRow := do
  match (r.busName.bind s.busNamed?).bind s.busIndex? with
  | none => Run.fail (.unresolvedRequestBus r.busName r.id)
  | some busIndex =>
    Run.report (.ofSet s.name) .debug
      ("Added diagnostic request " ++ Fault.hex r.id ++ " mode " ++ Fault.hex r.mode)
    return ⟨busIndex, r⟩

/-! ## Whole sets -/

/-- The tables of a set at a position among all sets. -/
def tables (s : MessageSet) (index : Nat) : Run SetTables := do
  Run.report (.ofSet s.name) .info
    ("Added message set '" ++ s.name ++ "' at index " ++ toString index)
  let messages := (← s.allMessages.mapM s.placeMessage).filterMap id
  let signals := (← s.allSignals.mapM (s.placeSignal (messages.map (·.ref)))).filterMap id
  Run.write (s.allCommands.map s.commandEntry)
  let requests ← s.activeRequests.mapM s.placeRequest
  return {
    index
    name := s.name
    buses := s.busRows
    messages := s.messageRows messages signals
    signals := s.signalRows 0 signals
    commands := s.activeCommands
    requests
    initializers := s.initializers
    loopers := s.loopers
    extraSources := s.extraSources }

/-- What the tables of a set leave out. -/
def tally (s : MessageSet) (t : SetTables) : Tally where
  skippedMessages := s.allMessages.countP fun (_, m) => !s.enabledMessage m
  skippedSignals := s.allSignals.countP fun (_, x) => !s.enabledSignal x
  skippedCommands := s.commands.countP fun c => !c.enabled
  droppedStates := t.signals.foldr (fun row dropped => droppedStates row.signal + dropped) 0

end MessageSet

namespace Tables

/-- The sets in the order of their names. -/
def ordered (sets : List MessageSet) : List MessageSet := sortBy (byKey MessageSet.name) sets

/-- The tables of sets, each with what it leaves out, numbered on from a position. -/
def planFrom : Nat → List MessageSet → Run (List (SetTables × Tally))
  | _, [] => pure []
  | index, s :: rest => do
    let t ← s.tables index
    return (t, s.tally t) :: (← planFrom (index + 1) rest)

/-- The tables of message sets that are compiled together. -/
def ofSets (sets : List MessageSet) : Run Tables := do
  let planned ← planFrom 0 (ordered sets)
  return ⟨planned.map Prod.fst, (planned.map Prod.snd).foldr (· + ·) .zero⟩

end Tables

end CanTables
