import CanTables.Assembly.Lineage
import CanTables.Assembly.Mapping
import CanTables.Assembly.Resolve

/-!
# CanTables.Assembly.Assemble — from files to a message set

The layers of a message set are, lowest first: its file's ancestors, the mappings with their
databases underneath, and the message objects of the file itself.  `Catalog.assemble` merges them
and resolves the result; `Catalog.superset` does this for every message set that a superset file
lists.

An assembled set is not checked; see `MessageSet.check`.
-/

namespace CanTables

open Declaration

/-- The name of a message set whose file does not give one. -/
def usualSetName : String := "generic"

/-- Every bus has a speed; the first that has none is reported. -/
def checkSpeeds (buses : Keyed String BusEntry) : Except Fault Unit :=
  match buses.find? fun entry => (entry.2 .speed).isNone with
  | none => .ok ()
  | some entry => .error (.noSpeed entry.1)

/-- The drafts of a set: what the mappings say, and then what the file says. -/
def mergeMessages (contributed own : List (String × Document.Value)) :
    Except Fault Drafts := do
  let drafts ← contributed.foldlM Drafts.add []
  let canonical ← canonicalKeys own
  canonical.foldlM Drafts.add drafts

namespace Catalog

/-- The draft of a message set from its file, whose ancestors are merged into it. -/
def draft (c : Catalog) (settings : Settings) (name : String) (file : SetFile) : Run SetDraft := do
  Run.lift (checkSpeeds file.buses)
  let contribution ← c.mappings settings name file.buses.contains file.mappings
  let messages ← Run.lift (mergeMessages contribution.messages file.messages)
  return {
    name
    bitNumberingInverted := file.bitNumberingInverted
    buses := file.buses
    messages
    commands := contribution.commands ++ file.commands
    requests := contribution.requests ++ file.requests
    initializers := file.initializers ++ contribution.initializers
    loopers := file.loopers ++ contribution.loopers
    extraSources := file.extraSources ++ contribution.extraSources }

/-- The message set that a name stands for. -/
def assemble (c : Catalog) (settings : Settings) (name : String) : Run MessageSet := do
  let lineage ← c.lineage name
  let file ← Run.lift (readRecord SetFile.read ("message set " ++ lineage.path) lineage.merged)
  let setName := file.name.getD usualSetName
  Run.report (.ofSet setName) .info ("Assembling message set from " ++ lineage.path)
  (← c.draft settings setName file).resolve

/-- The message sets that a superset file lists, in order. -/
def superset (c : Catalog) (settings : Settings) (name : String) : Run (List MessageSet) := do
  let (found, value) ← Run.lift (c.readValue name)
  let file ← Run.lift (readRecord SupersetFile.read ("superset " ++ found.path) value)
  let label := file.name.getD name
  if file.messageSets.isEmpty then
    Run.note .warn ("Superset " ++ label ++ " doesn't define any message sets")
  Run.note .info
    ("Loading " ++ toString file.messageSets.length ++ " message set(s) for superset " ++ label)
  file.messageSets.mapM (c.assemble settings)

end Catalog

end CanTables
