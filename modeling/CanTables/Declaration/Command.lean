import CanTables.Schema.Layer

/-!
# CanTables.Declaration.Command — commands and diagnostic requests as written

Commands and diagnostic requests are not layered: every entry of every file is one of its own.
-/

namespace CanTables.Declaration

open Numeric Schema

/-- The attributes of a command entry. -/
inductive CommandAttribute where
  | name
  | handler
  | enabled
  deriving DecidableEq, Repr

instance : Record CommandAttribute where
  attributes := [.name, .handler, .enabled]
  key
    | .name => "name"
    | .handler => "handler"
    | .enabled => "enabled"
  Carrier
    | .name => String
    | .handler => String
    | .enabled => Bool
  read
    | .name => Reader.text
    | .handler => Reader.text
    | .enabled => Reader.flag
  nullable
    | .name => false
    | _ => true
  required
    | .name => true
    | _ => false

/-- A command entry. -/
structure CommandEntry where
  name : String
  handler : Option String
  enabled : Option Bool
  deriving DecidableEq, Repr

/-- A command entry from a value. -/
def CommandEntry.read : Reader CommandEntry := fun v => do
  let layer ← Layer.read (A := CommandAttribute) v
  return { name := ← layer.demand .name, handler := layer .handler, enabled := layer .enabled }

/-- The attributes of a diagnostic request entry. -/
inductive RequestAttribute where
  | bus
  | id
  | mode
  | pid
  | pidLength
  | frequency
  | decoder
  | callback
  | multipleResponses
  | name
  | enabled
  deriving DecidableEq, Repr

instance : Record RequestAttribute where
  attributes :=
    [.bus, .id, .mode, .pid, .pidLength, .frequency, .decoder, .callback, .multipleResponses, .name,
      .enabled]
  key
    | .bus => "bus"
    | .id => "id"
    | .mode => "mode"
    | .pid => "pid"
    | .pidLength => "pid_length"
    | .frequency => "frequency"
    | .decoder => "decoder"
    | .callback => "callback"
    | .multipleResponses => "multiple_responses"
    | .name => "name"
    | .enabled => "enabled"
  Carrier
    | .bus | .decoder | .callback | .name => String
    | .id | .mode | .pid => IdentifierValue
    | .pidLength => UInt8
    | .frequency => Single
    | .multipleResponses | .enabled => Bool
  read
    | .bus | .decoder | .callback | .name => Reader.text
    | .id | .mode | .pid => Reader.identifier
    | .pidLength => Reader.word8
    | .frequency => Reader.single
    | .multipleResponses | .enabled => Reader.flag
  nullable
    | .id | .mode => false
    | _ => true
  required
    | .id | .mode => true
    | _ => false

/-- A diagnostic request entry. -/
structure RequestEntry where
  bus : Option String
  id : IdentifierValue
  mode : IdentifierValue
  pid : Option IdentifierValue
  pidLength : Option UInt8
  frequency : Option Single
  decoder : Option String
  callback : Option String
  multipleResponses : Option Bool
  name : Option String
  enabled : Option Bool
  deriving DecidableEq, Repr

/-- A diagnostic request entry from a value. -/
def RequestEntry.read : Reader RequestEntry := fun v => do
  let layer ← Layer.read (A := RequestAttribute) v
  return {
    bus := layer .bus
    id := ← layer.demand .id
    mode := ← layer.demand .mode
    pid := layer .pid
    pidLength := layer .pidLength
    frequency := layer .frequency
    decoder := layer .decoder
    callback := layer .callback
    multipleResponses := layer .multipleResponses
    name := layer .name
    enabled := layer .enabled }

end CanTables.Declaration
