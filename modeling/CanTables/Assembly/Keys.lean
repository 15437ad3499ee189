import CanTables.Document.Overlay
import CanTables.Fault

/-!
# CanTables.Assembly.Keys — one spelling for every message identifier

The keys of a `messages` object are identifiers in any spelling.  Before layers of different files
meet, every key is replaced by the canonical spelling of its identifier; the values of several
spellings of one identifier are laid over each other in key order.
-/

namespace CanTables

open Document

/-- The identifier that a key spells. -/
def identify (key : String) : Except Fault UInt32 :=
  match Identifier.parse? key with
  | some id => .ok id
  | none => .error (.notIdentifier key)

/-- Adds a value under the canonical spelling of its key, over what is already there. -/
def addCanonical (messages : Fields) (entry : String × Value) : Except Fault Fields :=
  match identify entry.1 with
  | .error fault => .error fault
  | .ok id =>
    .ok (Keyed.upsert (Identifier.key id)
      (fun
        | none => entry.2
        | some earlier => Value.overlay earlier entry.2)
      messages)

/-- The same messages under canonical keys. -/
def canonicalKeys (messages : Fields) : Except Fault Fields := messages.foldlM addCanonical []

end CanTables
