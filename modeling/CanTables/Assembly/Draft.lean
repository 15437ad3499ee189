import CanTables.Assembly.Keys
import CanTables.Declaration.Message
import CanTables.Declaration.Signal
import CanTables.Store.Catalog

/-!
# CanTables.Assembly.Draft — merging the layers of messages

A message object is checked against the schema and becomes a `Statement`: what this one object says
about a message and its signals.  Statements join a list of drafts one after the other.  A statement
about a bus joins the draft of that identifier on that bus, or else adopts the draft of that
identifier that has no bus yet; a statement without a bus joins the only draft of its identifier;
a statement that finds no draft begins one.

Within a draft every attribute, and every attribute of every signal, is the one said last.
-/

namespace CanTables

open Declaration Document Schema

/-! ## Statements -/

/-- What one object says about a message. -/
structure Statement where
  id : UInt32
  attributes : MessageLayer
  /-- What it says about signals, in the order of their names. -/
  signals : List (String × SignalLayer)

namespace Statement

/-- Every key of an object is among those its kind of entity has. -/
def checkKeys (entity : Entity) (known : List String) (name message : String) (fields : Fields) :
    Except Fault Unit :=
  match fields.find? fun field => !known.contains field.1 with
  | none => .ok ()
  | some field => .error (.unknownAttribute entity name message field.1)

/-- What a value says about a signal. -/
def readSignal (key : String) (entry : String × Value) : Except Fault (String × SignalLayer) := do
  if let .object fields := entry.2 then
    checkKeys .signal (Layer.knownKeys SignalAttribute) entry.1 key fields
  let layer ← readRecord Layer.read ("signal " ++ entry.1 ++ " of message " ++ key) entry.2
  return (entry.1, layer)

/-- What an object says about a message. -/
def ofFields (key : String) (id : UInt32) (fields : Fields) : Except Fault Statement := do
  checkKeys .message (Layer.knownKeys MessageAttribute) key key fields
  let attributes ←
    readRecord Layer.read ("message " ++ key) (.object (Keyed.erase fields "signals"))
  let signals ←
    match fields.get? "signals" with
    | none => .ok []
    | some raw => do
      let entries ← readRecord Reader.object ("signals of message " ++ key) raw
      entries.mapM (readSignal key)
  return { id, attributes, signals }

/-- What a value says about the message under a key.  A value that is not an object must still be a
message record, but says nothing. -/
def read (key : String) (raw : Value) : Except Fault (Option Statement) := do
  let id ← identify key
  match raw with
  | .object fields => return some (← ofFields key id fields)
  | other =>
    let _ ← readRecord (Layer.read (A := MessageAttribute)) ("message " ++ key) other
    return none

end Statement

/-! ## Drafts -/

/-- The merged layers of one message. -/
structure MessageDraft where
  id : UInt32
  attributes : MessageLayer
  signals : Keyed String SignalLayer

namespace MessageDraft

/-- A draft about which nothing is said yet. -/
def blank (id : UInt32) : MessageDraft := ⟨id, Layer.empty, []⟩

/-- The bus that the draft is on so far. -/
def bus (d : MessageDraft) : Option String := d.attributes .bus

/-- Puts what is said about a signal on top of what was said before. -/
def addSignal (signals : Keyed String SignalLayer) (entry : String × SignalLayer) :
    Keyed String SignalLayer :=
  Keyed.upsert entry.1 (fun below => Layer.overlay (below.getD Layer.empty) entry.2) signals

/-- Puts a statement on top of a draft. -/
def join (d : MessageDraft) (said : Statement) : MessageDraft :=
  { d with
    attributes := MessageLayer.overlay d.attributes said.attributes
    signals := said.signals.foldl addSignal d.signals }

end MessageDraft

/-- The drafts of a message set, in the order in which they were begun. -/
abbrev Drafts := List MessageDraft

namespace Drafts

/-- The draft that a statement about an identifier joins, by its position. -/
def target? (drafts : Drafts) (bus : Option String) (id : UInt32) : Option Nat :=
  match bus with
  | some name =>
    (drafts.findIdx? fun d => d.id == id && d.bus == some name).or
      (drafts.findIdx? fun d => d.id == id && d.bus == none)
  | none =>
    if drafts.countP (·.id == id) = 1 then drafts.findIdx? (·.id == id) else none

/-- The drafts after a statement. -/
def join (drafts : Drafts) (said : Statement) : Drafts :=
  match drafts.target? (said.attributes .bus) said.id with
  | some index => drafts.modify index (·.join said)
  | none => drafts ++ [(MessageDraft.blank said.id).join said]

/-- The drafts after what a value says about the message under a key. -/
def add (drafts : Drafts) (entry : String × Value) : Except Fault Drafts := do
  match ← Statement.read entry.1 entry.2 with
  | none => return drafts
  | some said => return drafts.join said

end Drafts

end CanTables
