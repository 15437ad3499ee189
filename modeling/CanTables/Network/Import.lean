import CanTables.Assembly.Keys
import CanTables.Journal
import CanTables.Network.Basic
import CanTables.Numeric.Decimal

/-!
# CanTables.Network.Import — taking signals from a network database

A mapping may leave the layout of its signals to a network database.  `Database.extract` yields a
`messages` object with what the database says about the signals that the mapping refers to, so that
the mapping can be laid over it.

A message is found by its identifier, a signal by its name; the first of several counts.  A signal
that is referred to must have all six of its layout fields.
-/

namespace CanTables.Network

open Document Numeric Text

/-! ## Fields -/

/-- A field of a database signal: the name of its element, and its text if it is there. -/
structure Field where
  label : String
  text : Option String

/-- What a field holds when read by a reader, after trimming. -/
def Field.read {α : Type} (f : Field) (id : UInt32) (signal : String)
    (reader : List Char → Option α) : Except Fault α :=
  match f.text with
  | none => .error (.missingDatabaseField id signal f.label)
  | some text =>
    let trimmed := trim text.toList
    match reader trimmed with
    | some value => .ok value
    | none => .error (.invalidDatabaseField id signal f.label (String.ofList trimmed))

/-- An unsigned number of 32 bits in decimal digits, behind at most one plus sign. -/
def readWord? (cs : List Char) : Option UInt32 :=
  (Digits.read? 10 (Identifier.dropPlus cs)).bind Identifier.ofNat?

namespace DatabaseSignal

/-- What the database says about a signal of a message, under the generic name it was asked for
by. -/
def describe (s : DatabaseSignal) (id : UInt32) (genericName : String) : Except Fault Value := do
  let position ← Field.read ⟨"Bitposition", s.bitPosition⟩ id s.name readWord?
  let size ← Field.read ⟨"Bitsize", s.bitSize⟩ id s.name readWord?
  let factor ← Field.read ⟨"Factor", s.factor⟩ id s.name readFree?
  let offset ← Field.read ⟨"Offset", s.offset⟩ id s.name readFree?
  let minimum ← Field.read ⟨"Minimum", s.minimum⟩ id s.name readFree?
  let maximum ← Field.read ⟨"Maximum", s.maximum⟩ id s.name readFree?
  return .object
    [("bit_position", .int position.toNat), ("bit_size", .int size.toNat),
      ("factor", Value.ofFinite factor), ("generic_name", .text genericName),
      ("max_value", Value.ofFinite maximum), ("min_value", Value.ofFinite minimum),
      ("offset", Value.ofFinite offset)]

end DatabaseSignal

/-! ## Extraction -/

/-- The first message with an identifier; a message without a valid one is never found. -/
def Database.find? (d : Database) (id : UInt32) : Option DatabaseMessage :=
  d.messages.find? fun message => Identifier.parse? message.id == some id

/-- The names of the signals that a message object refers to. -/
def referredSignals (message : Value) : List String :=
  (((message.field? "signals").bind Value.fields?).map Keyed.keys).getD []

/-- What a database message says about the signals with the given names, as far as it has them. -/
def DatabaseMessage.describeSignals (m : DatabaseMessage) (id : UInt32) (names : List String) :
    Except Fault Fields :=
  names.foldlM (fun found name =>
    match m.signals.find? (·.name == name) with
    | none => .ok found
    | some signal => (signal.describe id name).map (Keyed.insert found name)) []

/-- Adds what the database says about one message that a mapping refers to. -/
def Database.extractMessage (d : Database) (path : String) (found : Fields)
    (entry : String × Value) : Run Fields := do
  let id ← Run.lift (identify entry.1)
  match d.find? id with
  | none =>
    Run.note .warn ("Unable to find message ID " ++ Identifier.key id ++ " in " ++ path)
    return found
  | some message =>
    let signals ← Run.lift (message.describeSignals id (referredSignals entry.2))
    if signals.isEmpty then
      Run.note .debug ("No referenced signals of " ++ Identifier.key id ++ " found in " ++ path)
      return found
    else
      return Keyed.insert found (Identifier.key id)
        (.object [("name", .text message.name), ("signals", .object signals)])

/-- What a database says about the messages that a mapping refers to. -/
def Database.extract (d : Database) (path : String) (messages : Fields) : Run Fields :=
  messages.foldlM (d.extractMessage path) []

/-- What the database with a text says about the messages that a mapping refers to.  The text is
not needed where the mapping refers to no message. -/
def importMessages (path : String) (text : Except Fault String) (messages : Fields) :
    Run Fields := do
  if messages.isEmpty then
    Run.note .warn ("No messages specified for mapping from " ++ path)
    return []
  else
    match Database.ofText? (← Run.lift text) with
    | none => Run.fail (.notDatabase path)
    | some database => database.extract path messages

end CanTables.Network
