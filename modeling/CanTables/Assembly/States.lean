import CanTables.MessageSet.Basic
import CanTables.Order.Keyed

/-!
# CanTables.Assembly.States — the states of an enumerated signal

Configuration lists raw values under the names of states.  A signal has one name per value: names
are taken in order, the first one that lists a value keeps it, and every later listing of that value
is a clash.  The states are kept in the order of their values.
-/

namespace CanTables

/-- A listing of a value that had a name already. -/
structure StateClash where
  value : Int
  kept : String
  dropped : String
  deriving DecidableEq, Repr

/-- The names of values, with the listings that came too late. -/
structure StateNames where
  names : Keyed Int String
  clashes : List StateClash
  deriving DecidableEq, Repr

namespace StateNames

/-- No value has a name. -/
def empty : StateNames := ⟨[], []⟩

/-- One more listing of a value under a name. -/
def add (s : StateNames) (listing : Int × String) : StateNames :=
  match s.names.get? listing.1 with
  | some kept => { s with clashes := s.clashes ++ [⟨listing.1, kept, listing.2⟩] }
  | none => { s with names := Keyed.insert s.names listing.1 listing.2 }

/-- The listings of an enumeration: names in order, the values of a name as listed. -/
def listings (raw : Keyed String (List Int)) : List (Int × String) :=
  raw.flatMap fun (name, values) => values.map fun value => (value, name)

/-- The names that an enumeration gives. -/
def ofListings (raw : Keyed String (List Int)) : StateNames := (listings raw).foldl add empty

/-- The states in the order of their values. -/
def states (s : StateNames) : List SignalState := s.names.map fun (value, name) => ⟨value, name⟩

end StateNames

end CanTables
