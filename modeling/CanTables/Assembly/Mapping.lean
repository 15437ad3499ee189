import CanTables.Declaration.File
import CanTables.Network.Import
import CanTables.Settings
import CanTables.Store.Catalog

/-!
# CanTables.Assembly.Mapping — what mapping files contribute

A message set refers to mapping files.  A reference gives the bus that the mapping's content goes to
unless it names one itself, and says whether the mapping is enabled; a disabled mapping is left out
or contributes everything disabled and no code.  Where a reference names a network database, the
database's description of the mapping's signals lies under the mapping.

The contributions of all mappings are kept in the order of the references.
-/

namespace CanTables

open Declaration Document

/-- What mapping files contribute to a message set. -/
structure Contribution where
  /-- Message objects under canonical keys. -/
  messages : List (String × Value)
  commands : List CommandEntry
  requests : List RequestEntry
  initializers : List String
  loopers : List String
  extraSources : List String

namespace Contribution

/-- No contribution. -/
def none : Contribution := ⟨[], [], [], [], [], []⟩

/-- One contribution and then another. -/
def append (a b : Contribution) : Contribution where
  messages := a.messages ++ b.messages
  commands := a.commands ++ b.commands
  requests := a.requests ++ b.requests
  initializers := a.initializers ++ b.initializers
  loopers := a.loopers ++ b.loopers
  extraSources := a.extraSources ++ b.extraSources

instance : Append Contribution := ⟨append⟩

/-- Several contributions, one after the other. -/
def concat (parts : List Contribution) : Contribution := parts.foldr append none

end Contribution

namespace Declaration.MappingReference

/-- A message object with the reference's bus and flag where it has no such key. -/
def stamp (r : MappingReference) (message : Value) : Value :=
  match message with
  | .object fields =>
    let withBus :=
      match r.bus with
      | some bus => Keyed.insertIfNew fields "bus" (.text bus)
      | none => fields
    .object (Keyed.insertIfNew withBus "enabled" (.bool r.enabled))
  | other => other

/-- A command of the mapping, disabled with it. -/
def adoptCommand (r : MappingReference) (c : CommandEntry) : CommandEntry :=
  if r.enabled then c else { c with enabled := some false }

/-- A diagnostic request of the mapping, on the reference's bus if it has none and disabled with
the mapping. -/
def adoptRequest (r : MappingReference) (q : RequestEntry) : RequestEntry :=
  { q with
    bus := q.bus.or r.bus
    enabled := if r.enabled then q.enabled else some false }

/-- What a mapping file contributes, its message objects given. -/
def contribution (r : MappingReference) (file : MappingFile) (messages : Fields) :
    Contribution where
  messages := messages.map fun (key, message) => (key, r.stamp message)
  commands := file.commands.map r.adoptCommand
  requests := file.requests.map r.adoptRequest
  initializers := if r.enabled then file.initializers else []
  loopers := if r.enabled then file.loopers else []
  extraSources := if r.enabled then file.extraSources else []

end Declaration.MappingReference

/-- The fields of one object laid over those of another. -/
def overlayObjects (below above : Fields) : Fields :=
  ((Value.overlay (.object below) (.object above)).fields?).getD []

namespace Catalog

/-- The message objects of a mapping, laid over what its network database says about them. -/
def importUnder (c : Catalog) (origin : Origin) (database : Option String) (messages : Fields) :
    Run Fields := do
  match database with
  | none => return messages
  | some name =>
    let found ← Run.lift (c.find name)
    let imported ← Network.importMessages found.path (textOf found) messages
    Run.report origin .info
      ("Imported " ++ toString imported.length ++ " message(s) from " ++ found.path)
    return overlayObjects imported messages

/-- What one reference contributes. -/
def mapping (c : Catalog) (settings : Settings) (set : String) (hasBus : String → Bool)
    (r : MappingReference) : Run Contribution := do
  let origin := Origin.ofSet set
  if !r.enabled then
    Run.report origin .warn ("Mapping '" ++ r.mapping ++ "' is disabled")
  if !r.enabled && settings.skipDisabledMappings then
    return .none
  else
    match r.bus with
    | none =>
      Run.report origin .warn ("No default bus associated with '" ++ r.mapping ++ "' mapping")
    | some bus =>
      if hasBus bus then Pure.pure () else Run.fail (.undefinedMappingBus bus r.mapping)
    let (found, value) ← Run.lift (c.readValue r.mapping)
    let file ← Run.lift (readRecord MappingFile.read ("mapping " ++ found.path) value)
    Run.report origin .debug
      ("Loaded mapping " ++ found.path ++ " (" ++ file.name.getD "unnamed" ++ ")")
    if file.messages.isEmpty then
      Run.report origin .warn ("Mapping file '" ++ r.mapping ++ "' doesn't define any messages")
    let messages ← Run.lift (canonicalKeys file.messages)
    return r.contribution file (← c.importUnder origin r.database messages)

/-- What all references contribute, in order. -/
def mappings (c : Catalog) (settings : Settings) (set : String) (hasBus : String → Bool)
    (references : List MappingReference) : Run Contribution := do
  return .concat (← references.mapM (c.mapping settings set hasBus))

end Catalog

end CanTables
