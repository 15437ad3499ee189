/-!
# CanTables.RawMode — raw traffic beside the decoded signals

A bus may pass raw messages on: none of them, those that belong to the message set, or all.
-/

namespace CanTables

/-- Which raw messages of a bus are passed on. -/
inductive RawMode where
  | off
  /-- Messages that are part of the set. -/
  | filtered
  /-- Every message on the bus. -/
  | unfiltered
  deriving DecidableEq, Repr

namespace RawMode

/-- The name that configuration files use. -/
def name : RawMode → String
  | .off => "off"
  | .filtered => "filtered"
  | .unfiltered => "unfiltered"

/-- The mode with a name. -/
def ofName? (name : String) : Option RawMode :=
  [off, filtered, unfiltered].find? (·.name == name)

end RawMode

end CanTables
