import CanTables.Document.Value
import CanTables.Identifier
import CanTables.RawMode

/-!
# CanTables.Schema.Reader — reading typed data from configuration values

A reader turns a configuration value into typed data or says why it cannot: the value is of the
wrong kind, out of range, or a record with a wrong field.  Only whole numbers are accepted where
whole numbers are asked for; a whole number is welcome where a real one is asked for and is rounded
once, straight into the format asked for.
-/

namespace CanTables.Schema

open Document Numeric

/-- Why a value is not of the shape asked for. -/
inductive Cause where
  /-- A value of another kind: a text for a number, a real for a whole number, and so on. -/
  | wrongKind
  /-- A whole number outside the range asked for. -/
  | outOfRange
  /-- A record has a field that its schema does not know. -/
  | unknownField (key : String)
  /-- A record lacks a field that it must have. -/
  | missingField (key : String)
  /-- A name that is not among the names asked for. -/
  | unknownVariant (name : String)
  /-- A record written as an array of too few or too many items. -/
  | wrongLength (items : Nat)
  /-- Neither a natural number nor a text where an identifier is asked for. -/
  | notIdentifier
  deriving DecidableEq, Repr

/-- What is reported about a cause. -/
def Cause.message : Cause → String
  | .wrongKind => "invalid type"
  | .outOfRange => "invalid value"
  | .unknownField key => "unknown field `" ++ key ++ "`"
  | .missingField key => "missing field `" ++ key ++ "`"
  | .unknownVariant name => "unknown variant `" ++ name ++ "`"
  | .wrongLength items => "invalid length " ++ toString items
  | .notIdentifier => "data did not match any variant of untagged enum IdValue"

/-- Typed data from a value, or the cause why there is none. -/
abbrev Reader (α : Type) := Value → Except Cause α

namespace Reader

/-! ## Scalars -/

/-- A truth value. -/
def flag : Reader Bool
  | .bool b => .ok b
  | _ => .error .wrongKind

/-- A text. -/
def text : Reader String
  | .text s => .ok s
  | _ => .error .wrongKind

/-- A whole number from `least` up to but not including `bound`. -/
def whole (least bound : Int) : Reader Int
  | .int n => if least ≤ n ∧ n < bound then .ok n else .error .outOfRange
  | _ => .error .wrongKind

/-- A 32-bit word. -/
def word32 : Reader UInt32 := fun v => do return .ofNat (← whole 0 UInt32.size v).toNat

/-- An 8-bit word. -/
def word8 : Reader UInt8 := fun v => do return .ofNat (← whole 0 UInt8.size v).toNat

/-- A signed 64-bit number. -/
def signed64 : Reader Int := whole (-0x8000000000000000) 0x8000000000000000

/-- A 64-bit real number. -/
def double : Reader Double
  | .int n => .ok (.ofInt .double n)
  | .real x => .ok x
  | _ => .error .wrongKind

/-- A 32-bit real number; what is too large is infinite. -/
def single : Reader Single
  | .int n => .ok (.ofInt .single n)
  | .real x => .ok (x.convert .single)
  | _ => .error .wrongKind

/-- A raw traffic mode: its name, or an object with that name as its only key and nothing under
it. -/
def rawMode : Reader RawMode
  | .text name => named name
  | .object [(name, value)] => do
    let mode ← named name
    match value with
    | .null => return mode
    | _ => .error .wrongKind
  | .object _ => .error .outOfRange
  | _ => .error .wrongKind
where
  /-- The mode with a name. -/
  named (name : String) : Except Cause RawMode :=
    match RawMode.ofName? name with
    | some mode => .ok mode
    | none => .error (.unknownVariant name)

/-! ## Collections -/

/-- An array of items that one reader reads. -/
def list {α : Type} (item : Reader α) : Reader (List α)
  | .array items => items.mapM item
  | _ => .error .wrongKind

/-- An object whose values one reader reads. -/
def map {α : Type} (item : Reader α) : Reader (Keyed String α)
  | .object fields => fields.mapM fun (key, value) => do return (key, ← item value)
  | _ => .error .wrongKind

/-- An object as it is. -/
def object : Reader Fields
  | .object fields => .ok fields
  | _ => .error .wrongKind

end Reader

/-! ## Identifiers -/

/-- An identifier as written: a number, or a text in any supported base. -/
inductive IdentifierValue where
  | number (n : Nat)
  | spelled (text : String)
  deriving DecidableEq, Repr

/-- The text by which a written identifier is quoted. -/
def IdentifierValue.quoted : IdentifierValue → String
  | .number n => toString n
  | .spelled text => text

/-- The identifier that is written, if it fits 32 bits. -/
def IdentifierValue.resolve? : IdentifierValue → Option UInt32
  | .number n => Identifier.ofNat? n
  | .spelled text => Identifier.parse? text

/-- An identifier as written. -/
def Reader.identifier : Reader IdentifierValue
  | .int n => if 0 ≤ n then .ok (.number n.toNat) else .error .notIdentifier
  | .text s => .ok (.spelled s)
  | _ => .error .notIdentifier

end CanTables.Schema
