import CanTables.Declaration.Bus
import CanTables.Declaration.Command

/-!
# CanTables.Declaration.File — the four kinds of configuration file

A message set file declares buses and content and refers to mappings; a mapping file adds content;
a superset file lists message sets.  Messages are kept raw here: they are checked one by one when
their layers are merged, so that a fault can be reported by message and signal.
-/

namespace CanTables.Declaration

open Document Schema

/-! ## References to mappings -/

/-- The attributes of a reference to a mapping file. -/
inductive ReferenceAttribute where
  | mapping
  | bus
  | enabled
  | database
  deriving DecidableEq, Repr

instance : Record ReferenceAttribute where
  attributes := [.mapping, .bus, .enabled, .database]
  key
    | .mapping => "mapping"
    | .bus => "bus"
    | .enabled => "enabled"
    | .database => "database"
  Carrier
    | .enabled => Bool
    | _ => String
  read
    | .enabled => Reader.flag
    | .mapping | .bus | .database => Reader.text
  nullable
    | .bus | .database => true
    | _ => false
  required
    | .mapping => true
    | _ => false

/-- A reference to a mapping file: the bus its content goes to, whether it is enabled, and the
network database behind its messages. -/
structure MappingReference where
  mapping : String
  bus : Option String
  enabled : Bool
  database : Option String
  deriving DecidableEq, Repr

/-- A reference from a value; references are enabled unless they say otherwise. -/
def MappingReference.read : Reader MappingReference := fun v => do
  let layer ← Layer.read (A := ReferenceAttribute) v
  return {
    mapping := ← layer.demand .mapping
    bus := layer .bus
    enabled := (layer .enabled).getD true
    database := layer .database }

/-! ## Message set files -/

/-- The attributes of a message set file. -/
inductive SetAttribute where
  | name
  | parents
  | bitNumberingInverted
  | buses
  | mappings
  | messages
  | commands
  | requests
  | initializers
  | loopers
  | extraSources
  deriving DecidableEq, Repr

instance : Record SetAttribute where
  attributes :=
    [.name, .parents, .bitNumberingInverted, .buses, .mappings, .messages, .commands, .requests,
      .initializers, .loopers, .extraSources]
  key
    | .name => "name"
    | .parents => "parents"
    | .bitNumberingInverted => "bit_numbering_inverted"
    | .buses => "buses"
    | .mappings => "mappings"
    | .messages => "messages"
    | .commands => "commands"
    | .requests => "diagnostic_messages"
    | .initializers => "initializers"
    | .loopers => "loopers"
    | .extraSources => "extra_sources"
  Carrier
    | .name => String
    | .bitNumberingInverted => Bool
    | .buses => Keyed String BusEntry
    | .mappings => List MappingReference
    | .messages => Fields
    | .commands => List CommandEntry
    | .requests => List RequestEntry
    | .parents | .initializers | .loopers | .extraSources => List String
  read
    | .name => Reader.text
    | .bitNumberingInverted => Reader.flag
    | .buses => Reader.map Layer.read
    | .mappings => Reader.list MappingReference.read
    | .messages => Reader.object
    | .commands => Reader.list CommandEntry.read
    | .requests => Reader.list RequestEntry.read
    | .parents | .initializers | .loopers | .extraSources => Reader.list Reader.text
  nullable
    | .name => true
    | _ => false
  required _ := false

/-- A message set file, its parents already merged into it. -/
structure SetFile where
  name : Option String
  bitNumberingInverted : Bool
  buses : Keyed String BusEntry
  mappings : List MappingReference
  messages : Fields
  commands : List CommandEntry
  requests : List RequestEntry
  initializers : List String
  loopers : List String
  extraSources : List String

/-- A message set file from a value; bits are numbered the inverted way unless it says
otherwise. -/
def SetFile.read : Reader SetFile := fun v => do
  let layer ← Layer.read (A := SetAttribute) v
  return {
    name := layer .name
    bitNumberingInverted := (layer .bitNumberingInverted).getD true
    buses := (layer .buses).getD []
    mappings := (layer .mappings).getD []
    messages := (layer .messages).getD []
    commands := (layer .commands).getD []
    requests := (layer .requests).getD []
    initializers := (layer .initializers).getD []
    loopers := (layer .loopers).getD []
    extraSources := (layer .extraSources).getD [] }

/-! ## Mapping files -/

/-- The attributes of a mapping file. -/
inductive MappingAttribute where
  | name
  | messages
  | commands
  | requests
  | initializers
  | loopers
  | extraSources
  deriving DecidableEq, Repr

instance : Record MappingAttribute where
  attributes := [.name, .messages, .commands, .requests, .initializers, .loopers, .extraSources]
  key
    | .name => "name"
    | .messages => "messages"
    | .commands => "commands"
    | .requests => "diagnostic_messages"
    | .initializers => "initializers"
    | .loopers => "loopers"
    | .extraSources => "extra_sources"
  Carrier
    | .name => String
    | .messages => Fields
    | .commands => List CommandEntry
    | .requests => List RequestEntry
    | .initializers | .loopers | .extraSources => List String
  read
    | .name => Reader.text
    | .messages => Reader.object
    | .commands => Reader.list CommandEntry.read
    | .requests => Reader.list RequestEntry.read
    | .initializers | .loopers | .extraSources => Reader.list Reader.text
  nullable
    | .name => true
    | _ => false
  required _ := false

/-- A mapping file. -/
structure MappingFile where
  name : Option String
  messages : Fields
  commands : List CommandEntry
  requests : List RequestEntry
  initializers : List String
  loopers : List String
  extraSources : List String

/-- A mapping file from a value. -/
def MappingFile.read : Reader MappingFile := fun v => do
  let layer ← Layer.read (A := MappingAttribute) v
  return {
    name := layer .name
    messages := (layer .messages).getD []
    commands := (layer .commands).getD []
    requests := (layer .requests).getD []
    initializers := (layer .initializers).getD []
    loopers := (layer .loopers).getD []
    extraSources := (layer .extraSources).getD [] }

/-! ## Superset files -/

/-- The attributes of a superset file. -/
inductive SupersetAttribute where
  | name
  | messageSets
  deriving DecidableEq, Repr

instance : Record SupersetAttribute where
  attributes := [.name, .messageSets]
  key
    | .name => "name"
    | .messageSets => "message_sets"
  Carrier
    | .name => String
    | .messageSets => List String
  read
    | .name => Reader.text
    | .messageSets => Reader.list Reader.text
  nullable
    | .name => true
    | _ => false
  required _ := false

/-- A superset file: message sets that are compiled together. -/
structure SupersetFile where
  name : Option String
  messageSets : List String
  deriving DecidableEq, Repr

/-- A superset file from a value. -/
def SupersetFile.read : Reader SupersetFile := fun v => do
  let layer ← Layer.read (A := SupersetAttribute) v
  return { name := layer .name, messageSets := (layer .messageSets).getD [] }

end CanTables.Declaration
