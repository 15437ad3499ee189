import CanTables.Assembly.Draft
import CanTables.Assembly.States
import CanTables.Declaration.File
import CanTables.Journal
import CanTables.Order.Sorting

/-!
# CanTables.Assembly.Resolve — from merged layers to a message set

Once all layers are merged, attributes that nobody supplied get their defaults and names become
references.  Buses are listed by name; messages by the name of their bus and their identifier, those
without a bus first; the signals of a message by their generic name, those of the first message
before those of the second, and so on.
-/

namespace CanTables

open Declaration Numeric Schema Sorting

/-! ## The draft of a message set -/

/-- Everything that the files of a message set say about it. -/
structure SetDraft where
  name : String
  bitNumberingInverted : Bool
  buses : Keyed String BusEntry
  messages : Drafts
  commands : List CommandEntry
  requests : List RequestEntry
  initializers : List String
  loopers : List String
  extraSources : List String

/-- The texts in order, each once. -/
def sortedUnique (texts : List String) : List String :=
  Keyed.keys (texts.foldl (fun seen text => Keyed.insert seen text ()) [])

/-! ## Signals -/

/-- The generic name of a signal: its own name unless it says otherwise. -/
def genericNameOf (name : String) (layer : SignalLayer) : String := (layer .genericName).getD name

/-- The names that a signal gives to values. -/
def stateNamesOf (layer : SignalLayer) : StateNames :=
  StateNames.ofListings ((layer .states).getD [])

/-- A signal with its defaults. -/
def resolveSignal (owner : Message.Ref) (name : String) (layer : SignalLayer) : Signal where
  message := owner
  name := name
  genericName := genericNameOf name layer
  bitPosition := layer .bitPosition
  bitSize := layer .bitSize
  factor := (layer .factor).getD (.ofInt .double 1)
  offset := (layer .offset).getD (.zero .double false)
  minValue := (layer .minValue).getD (.zero .double false)
  maxValue := (layer .maxValue).getD (.zero .double false)
  enabled := (layer .enabled).getD true
  ignore := (layer .ignore).getD false
  maxFrequency := layer .maxFrequency
  sendSame := (layer .sendSame).getD true
  forceSendChanged := layer .forceSendChanged
  bitNumberingInverted := layer .bitNumberingInverted
  writable := (layer .writable).getD false
  decoder := layer .decoder
  encoder := layer .encoder
  states := (stateNamesOf layer).states

namespace MessageDraft

/-- The signals of a message by their generic names. -/
def resolveSignals (owner : Message.Ref) (d : MessageDraft) : List Signal :=
  sortBy (byKey Signal.genericName) (d.signals.map fun (name, layer) =>
    resolveSignal owner name layer)

/-- The journal line about a clash of state names. -/
def clashEntry (set : String) (id : UInt32) (genericName : String) (clash : StateClash) : Entry :=
  (Origin.ofMessage set id).entry .warn
    ("Signal " ++ genericName ++ " maps value " ++ Text.Digits.decimal clash.value ++
      " to both '" ++ clash.kept ++ "' and '" ++ clash.dropped ++ "', keeping '" ++
      clash.kept ++ "'")

/-- The journal lines about the state names of a message's signals. -/
def clashEntries (set : String) (d : MessageDraft) : List Entry :=
  d.signals.flatMap fun (name, layer) =>
    (stateNamesOf layer).clashes.map (clashEntry set d.id (genericNameOf name layer))

/-! ## Messages -/

/-- A message with its defaults, given its bus and its signals. -/
def resolve (d : MessageDraft) (bus : Option Bus.Ref) (signals : List Signal.Ref) : Message where
  id := d.id
  name := d.attributes .name
  busName := d.bus
  bus := bus
  enabled := (d.attributes .enabled).getD true
  bitNumberingInverted := d.attributes .bitNumberingInverted
  maxFrequency := d.attributes .maxFrequency
  maxSignalFrequency := d.attributes .maxSignalFrequency
  forceSendChanged := (d.attributes .forceSendChanged).getD false
  forceSendChangedSignals := (d.attributes .forceSendChangedSignals).getD false
  handlers := (d.attributes .handlers).getD []
  signals := signals

/-- One message comes before another: by bus, then by identifier. -/
def before (a b : MessageDraft) : Bool := thenLt optionLt (· < ·) (a.bus, a.id) (b.bus, b.id)

end MessageDraft

/-- The bus with a name, by its position among the buses in name order. -/
def busRef? (buses : Keyed String BusEntry) (name : String) : Option Bus.Ref :=
  (buses.findIdx? fun entry => entry.1 == name).map Bus.Ref.mk

/-- The messages of drafts with their signals, numbered on from a first message and a first
signal. -/
def arrange (buses : Keyed String BusEntry) :
    Nat → Nat → Drafts → List (Message × List Signal)
  | _, _, [] => []
  | message, signal, d :: rest =>
    let signals := d.resolveSignals ⟨message⟩
    let refs := (List.range' signal signals.length).map Signal.Ref.mk
    (d.resolve (d.bus.bind (busRef? buses)) refs, signals) ::
      arrange buses (message + 1) (signal + signals.length) rest

/-! ## Buses, commands and requests -/

/-- The messages that are on a bus. -/
def messagesOn (messages : List Message) (bus : Bus.Ref) : List Message.Ref :=
  messages.zipIdx.filterMap fun (m, index) => if m.bus = some bus then some ⟨index⟩ else none

/-- A bus with its defaults. -/
def resolveBus (name : String) (entry : BusEntry) (messages : List Message.Ref) : Bus where
  name := name
  speed := (entry .speed).getD (0 : UInt32)
  controller := entry .controller
  maxMessageFrequency := (entry .maxMessageFrequency).getD (.zero .single false)
  rawMode := (entry .rawMode).getD .off
  rawWritable := (entry .rawWritable).getD false
  loopback := (entry .loopback).getD false
  messages := messages

/-- A command with its defaults. -/
def resolveCommand (c : CommandEntry) : Command := ⟨c.name, c.handler, c.enabled.getD true⟩

/-- The mode whose parameters have two bytes. -/
def enhancedMode : UInt32 := 0x22

/-- The identifier that is written. -/
def resolveIdentifier (v : IdentifierValue) : Except Fault UInt32 :=
  match v.resolve? with
  | some id => .ok id
  | none => .error (.notIdentifier v.quoted)

/-- A diagnostic request with its defaults.  Its frequency has none. -/
def resolveRequest (r : RequestEntry) : Except Fault Request := do
  let id ← resolveIdentifier r.id
  let mode ← resolveIdentifier r.mode
  let frequency ←
    match r.frequency with
    | some frequency => .ok frequency
    | none => .error (.noRequestFrequency id)
  let pid ← r.pid.mapM resolveIdentifier
  return {
    name := r.name
    busName := r.bus
    id, mode, pid
    pidLength := r.pidLength.getD (if mode = enhancedMode then 2 else 1)
    frequency
    decoder := r.decoder
    callback := r.callback
    multipleResponses := r.multipleResponses.getD false
    enabled := r.enabled.getD true }

namespace SetDraft

/-- The drafts of messages in the order of the message list. -/
def orderedMessages (d : SetDraft) : Drafts :=
  sortBy (fun a b => !MessageDraft.before b a) d.messages

/-- The message set of a draft, its diagnostic requests given. -/
def resolveWith (d : SetDraft) (requests : List Request) : MessageSet :=
  let arranged := arrange d.buses 0 0 d.orderedMessages
  let messages := arranged.map Prod.fst
  { name := d.name
    bitNumberingInverted := d.bitNumberingInverted
    buses := d.buses.zipIdx.map fun ((name, entry), index) =>
      resolveBus name entry (messagesOn messages ⟨index⟩)
    messages := messages
    signals := arranged.flatMap Prod.snd
    commands := d.commands.map resolveCommand
    requests := requests
    initializers := d.initializers
    loopers := d.loopers
    extraSources := sortedUnique d.extraSources }

/-- The message set of a draft. -/
def resolve (d : SetDraft) : Run MessageSet := do
  Run.write (d.orderedMessages.flatMap (MessageDraft.clashEntries d.name))
  let requests ← Run.lift (d.requests.mapM resolveRequest)
  let set := d.resolveWith requests
  Run.report (.ofSet set.name) .debug
    ("Built " ++ toString set.buses.length ++ " bus(es), " ++ toString set.messages.length ++
      " message(s), " ++ toString set.signals.length ++ " signal(s)")
  return set

end SetDraft

end CanTables
