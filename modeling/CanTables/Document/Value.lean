import CanTables.Numeric.Floating
import CanTables.Order.Keyed

/-!
# CanTables.Document.Value — configuration values

Configuration files hold trees of objects, arrays and scalars.  The fields of an object are kept in
key order and each key occurs once, whatever the order in the file was, so objects with the same
fields are equal.

Whole numbers are kept apart from the numbers written with a point or an exponent: identifiers and
bit positions must be whole, scaling factors may be either.
-/

namespace CanTables.Document

open Numeric

/-- A configuration value. -/
inductive Value where
  | null
  | bool (b : Bool)
  | int (n : Int)
  | real (x : Double)
  | text (s : String)
  | array (items : List Value)
  | object (fields : List (String × Value))
  deriving Repr, Inhabited

/-- The fields of an object, as a map. -/
abbrev Fields := Keyed String Value

namespace Value

/-- The fields of a value that is an object. -/
def fields? : Value → Option Fields
  | .object fields => some fields
  | _ => none

/-- The value under a key of an object. -/
def field? (v : Value) (key : String) : Option Value := v.fields?.bind (Keyed.get? · key)

/-- An object without one of its fields; any other value as it is. -/
def eraseField (key : String) : Value → Value
  | .object fields => .object (Keyed.erase fields key)
  | v => v

/-- A real number, or nothing where the number is not finite. -/
def ofFinite (x : Double) : Value := if x.isFinite then .real x else .null

mutual

/-- Every object in the value has its keys in order, each once. -/
def Ordered : Value → Prop
  | .array items => OrderedItems items
  | .object fields => Keyed.Ordered fields ∧ OrderedFields fields
  | _ => True

/-- Every item is `Ordered`. -/
def OrderedItems : List Value → Prop
  | [] => True
  | item :: rest => Ordered item ∧ OrderedItems rest

/-- Every field's value is `Ordered`. -/
def OrderedFields : List (String × Value) → Prop
  | [] => True
  | (_, value) :: rest => Ordered value ∧ OrderedFields rest

end

end Value

end CanTables.Document
