import CanTables.Payload.Numbering
import CanTables.Schema.Reader

/-!
# CanTables.Fault — what stops a compilation

Everything that a compilation cannot go on after is a `Fault`.  What merely deserves attention is
written to the journal instead and never becomes a fault.
-/

namespace CanTables

open Payload Text

/-- Why the text of a file could not be read. -/
inductive ReadFault where
  | absent
  | notUtf8
  deriving DecidableEq, Repr

/-- What is reported about a file that could not be read. -/
def ReadFault.message : ReadFault → String
  | .absent => "No such file or directory (os error 2)"
  | .notUtf8 => "stream did not contain valid UTF-8"

/-- What an attribute may be found on. -/
inductive Entity where
  | message
  | signal
  deriving DecidableEq, Repr

/-- The word for a kind of entity. -/
def Entity.word : Entity → String
  | .message => "message"
  | .signal => "signal"

/-- What stops a compilation. -/
inductive Fault where
  /-- A file could not be read. -/
  | unreadable (path : String) (reason : ReadFault)
  /-- A configuration file does not hold a configuration value. -/
  | notJson (path : String)
  /-- A configuration value is not of the shape that its subject asks for. -/
  | malformed (subject : String) (cause : Schema.Cause)
  /-- A network database is not well formed. -/
  | notDatabase (path : String)
  /-- A file is in none of the search directories. -/
  | notFound (name : String) (directories : List String)
  /-- A file is its own ancestor. -/
  | ancestryLoop (path : String)
  /-- A bus has no speed. -/
  | noSpeed (bus : String)
  /-- A mapping goes to a bus that the message set does not define. -/
  | undefinedMappingBus (bus mapping : String)
  /-- A message or signal has an attribute that no message or signal has. -/
  | unknownAttribute (entity : Entity) (name message key : String)
  /-- A text is not an identifier. -/
  | notIdentifier (text : String)
  /-- A database field of a signal does not hold a number. -/
  | invalidDatabaseField (message : UInt32) (signal field text : String)
  /-- A signal of the database lacks one of its fields. -/
  | missingDatabaseField (message : UInt32) (signal field : String)
  /-- A database is asked for where databases cannot be read. -/
  | databaseUnsupported (database : String)
  /-- A diagnostic request goes to no usable bus. -/
  | unresolvedRequestBus (bus : Option String) (id : UInt32)
  /-- A diagnostic request has no frequency. -/
  | noRequestFrequency (id : UInt32)
  /-- A signal has no position in the emitted bit numbering. -/
  | inversion (set : String) (message : UInt32) (signal : String) (fault : InversionFault)
  /-- A message set is not fit for code generation. -/
  | invalidSet (name : String)
  /-- A source text could not be formatted. -/
  | formatting
  deriving DecidableEq, Repr

namespace Fault

/-- An identifier as reports show it. -/
def hex (id : UInt32) : String := "0x" ++ Digits.hex id.toNat

/-- What is reported about a fault. -/
def message : Fault → String
  | unreadable path reason => "Unable to read " ++ path ++ ": " ++ reason.message
  | notJson path => path ++ " does not contain valid JSON"
  | malformed subject cause => "Invalid " ++ subject ++ ": " ++ cause.message
  | notDatabase path => "Unable to parse CAN database " ++ path
  | notFound name directories =>
    "Unable to find '" ++ name ++ "' in search paths (" ++ ", ".intercalate directories ++ ")"
  | ancestryLoop path => "Parent chain of " ++ path ++ " loops back on itself"
  | noSpeed bus => "Bus " ++ bus ++ " is missing the 'speed' attribute"
  | undefinedMappingBus bus mapping =>
    "Bus '" ++ bus ++ "' (from mapping " ++ mapping ++ ") is not defined"
  | unknownAttribute entity name message key =>
    "Unrecognized attribute '" ++ key ++ "' on " ++ entity.word ++ " '" ++ name ++
      "' (message " ++ message ++ ")"
  | notIdentifier text => "'" ++ text ++ "' is not a valid integer identifier"
  | invalidDatabaseField id signal field text =>
    "Database signal " ++ signal ++ " in message " ++ hex id ++ " has an invalid " ++ field ++
      ": '" ++ text ++ "'"
  | missingDatabaseField id signal field =>
    "Database signal " ++ signal ++ " in message " ++ hex id ++ " has no " ++ field
  | databaseUnsupported database =>
    "Cannot import " ++ database ++ ": built without CAN database support"
  | unresolvedRequestBus (some bus) id =>
    "Diagnostic message " ++ hex id ++ " references unknown or invalid bus '" ++ bus ++ "'"
  | unresolvedRequestBus none id => "Diagnostic message " ++ hex id ++ " has no bus"
  | noRequestFrequency id =>
    "Diagnostic message " ++ hex id ++ " is missing the 'frequency' attribute"
  | inversion set id signal fault =>
    "Signal " ++ signal ++ " in message " ++ hex id ++ " (message set " ++ set ++ "): " ++
      fault.message
  | invalidSet name => "Message set '" ++ name ++ "' failed validation, unable to generate code"
  | formatting => "Formatting error: an error occurred when formatting an argument"

/-- The fault rests on a more particular one. -/
def hasReason : Fault → Bool
  | unreadable .. | notJson _ | malformed .. | notDatabase _ | inversion .. | formatting => true
  | _ => false

end Fault

end CanTables
