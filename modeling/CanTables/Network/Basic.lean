import CanTables.Markup.Entry

/-!
# CanTables.Network.Basic — network databases

A network database lists the messages that the nodes of a network transmit, with their signals.  Of
its XML form only the elements named here matter: `Node` in the first element, `TxMessage` in those,
`Signal` in those; everything else is passed over.

All numbers are kept as text, since only the signals that a mapping refers to have to be complete.
A transmitted message must have one `ID` and one `Name`; no element of a signal may occur twice, and
one that is marked as nil counts as absent.
-/

namespace CanTables.Network

open Markup

/-- A signal of a network database, its fields as written. -/
structure DatabaseSignal where
  name : String
  bitPosition : Option String
  bitSize : Option String
  factor : Option String
  offset : Option String
  minimum : Option String
  maximum : Option String
  deriving DecidableEq, Repr

/-- A message that a node transmits. -/
structure DatabaseMessage where
  id : String
  name : String
  signals : List DatabaseSignal
  deriving DecidableEq, Repr

/-- The messages of all nodes, one node after the other. -/
structure Database where
  messages : List DatabaseMessage
  deriving DecidableEq, Repr

/-! ## Reading -/

/-- A signal: every field but the name may be nil. -/
def DatabaseSignal.shape : Shape :=
  ⟨["Name"], ["Bitposition", "Bitsize", "Factor", "Offset", "Minimum", "Maximum"], none⟩

/-- A transmitted message. -/
def DatabaseMessage.shape : Shape := ⟨["ID", "Name"], [], some "Signal"⟩

/-- A node, of which only the messages matter. -/
def nodeShape : Shape := ⟨[], [], some "TxMessage"⟩

/-- The first element. -/
def Database.shape : Shape := ⟨[], [], some "Node"⟩

/-- The signal that an entry describes; one without a name has the empty name. -/
def DatabaseSignal.ofEntry (e : Entry Unit) : DatabaseSignal where
  name := (e.text? "Name").getD ""
  bitPosition := e.text? "Bitposition"
  bitSize := e.text? "Bitsize"
  factor := e.text? "Factor"
  offset := e.text? "Offset"
  minimum := e.text? "Minimum"
  maximum := e.text? "Maximum"

/-- The message that an entry describes. -/
def DatabaseMessage.ofEntry? (e : Entry DatabaseSignal) : Option DatabaseMessage := do
  return ⟨← e.text? "ID", ← e.text? "Name", e.items⟩

/-- Reads a signal. -/
def readSignal : Entry.ItemReader DatabaseSignal := fun scope tag children => do
  let (scope, entry) ← Entry.read? DatabaseSignal.shape (fun _ _ _ => none) scope tag children
  return (scope, .ofEntry entry)

/-- Reads a transmitted message. -/
def readMessage : Entry.ItemReader DatabaseMessage := fun scope tag children => do
  let (scope, entry) ← Entry.read? DatabaseMessage.shape readSignal scope tag children
  return (scope, ← DatabaseMessage.ofEntry? entry)

/-- Reads the messages of a node. -/
def readNode : Entry.ItemReader (List DatabaseMessage) := fun scope tag children => do
  let (scope, entry) ← Entry.read? nodeShape readMessage scope tag children
  return (scope, entry.items)

/-- The database that a text holds. -/
def Database.ofText? (text : String) : Option Database :=
  match Node.ofText? text with
  | some (.element tag children) => do
    let (_, entry) ← Entry.read? Database.shape readNode .outermost tag children
    return ⟨entry.items.flatten⟩
  | _ => none

end CanTables.Network
