import CanTables.Schema.Layer

/-!
# CanTables.Declaration.Bus — buses as written

A bus entry of a message set file.  Its speed is mandatory, but the schema accepts an entry without
one: the absence is reported by the name of the bus when the set is assembled.
-/

namespace CanTables.Declaration

open Numeric Schema

/-- The attributes of a bus entry. -/
inductive BusAttribute where
  | speed
  | controller
  | maxMessageFrequency
  | rawMode
  | rawWritable
  | loopback
  deriving DecidableEq, Repr

instance : Record BusAttribute where
  attributes := [.speed, .controller, .maxMessageFrequency, .rawMode, .rawWritable, .loopback]
  key
    | .speed => "speed"
    | .controller => "controller"
    | .maxMessageFrequency => "max_message_frequency"
    | .rawMode => "raw_can_mode"
    | .rawWritable => "raw_writable"
    | .loopback => "loopback"
  Carrier
    | .speed => UInt32
    | .controller => UInt8
    | .maxMessageFrequency => Single
    | .rawMode => RawMode
    | .rawWritable => Bool
    | .loopback => Bool
  read
    | .speed => Reader.word32
    | .controller => Reader.word8
    | .maxMessageFrequency => Reader.single
    | .rawMode => Reader.rawMode
    | .rawWritable => Reader.flag
    | .loopback => Reader.flag
  nullable _ := true
  required _ := false

/-- A bus entry. -/
abbrev BusEntry := Layer BusAttribute

end CanTables.Declaration
