import CanTables.Assembly.Assemble
import CanTables.Emit.Firmware
import CanTables.Emit.Script
import CanTables.MessageSet.Check
import CanTables.Tables.Plan

/-!
# CanTables.Compile — from message sets to source

`generate` plans the tables of some message sets, reads the extra source files they ask for and
emits the source.  `Catalog.compile` assembles and checks the sets first and goes no further than
the first set that is not fit.
-/

namespace CanTables

open Emit

/-- An emitted source, and what was left out of it. -/
structure Generated where
  source : String
  tally : Tally
  deriving DecidableEq, Repr

/-- The source for some tables, given the texts of the extra source files. -/
def emit (target : Target) (tables : Tables) (extra : List String) : String :=
  match target with
  | .cpp => render Firmware.separator (Firmware.pieces tables extra)
  | .python => render Script.separator (Script.pieces tables)

namespace Catalog

/-- The source for message sets that need not be fit. -/
def generate (c : Catalog) (settings : Settings) (sets : List MessageSet) : Run Generated := do
  let tables ← Tables.ofSets sets
  let extra ← Run.lift (tables.extraSources.mapM c.readText)
  let source := emit settings.target tables extra
  Run.note .info
    ("Generated " ++ toString source.utf8ByteSize ++ " bytes of " ++ settings.target.name ++
      " source for " ++ toString tables.sets.length ++ " message set(s)")
  return ⟨source, tables.tally⟩

/-- Checks sets in order, up to the first that is not fit. -/
def checkAll : List MessageSet → Run Unit
  | [] => return ()
  | s :: rest => do
    if ← s.check then checkAll rest else Run.fail (.invalidSet s.name)

/-- The source for message sets once all of them have been found fit. -/
def generateChecked (c : Catalog) (settings : Settings) (sets : List MessageSet) :
    Run Generated := do
  checkAll sets
  c.generate settings sets

/-- The source for the message sets that some names stand for. -/
def compile (c : Catalog) (settings : Settings) (names : List String) : Run Generated := do
  c.generateChecked settings (← names.mapM (c.assemble settings))

/-- The source for the message sets that a superset file lists. -/
def compileSuperset (c : Catalog) (settings : Settings) (name : String) : Run Generated := do
  c.generateChecked settings (← c.superset settings name)

end Catalog

end CanTables
