import CanTables.Schema.Reader

/-!
# CanTables.Schema.Layer — records that supply some of their attributes

A record of a configuration file is a *layer*: it supplies values for some attributes of its schema
and is silent on the others.  Layers stack: `Layer.overlay` takes each attribute from the upper
layer that supplies it.

A record is written as an object, or as an array of values in the schema's order.  An attribute may
be nullable, then `null` is the same as silence; it may be required, then a record without it is
refused.  Of several faults the first in key order is reported, and a missing attribute only when
there is no other fault.
-/

namespace CanTables.Schema

open Document

/-- The attributes that a kind of record has. -/
class Record (A : Type) where
  /-- All attributes, in the order in which an array gives them. -/
  attributes : List A
  /-- The key of an attribute in an object. -/
  key : A → String
  /-- The type of an attribute's values. -/
  Carrier : A → Type
  /-- The reader of an attribute's values. -/
  read : (a : A) → Reader (Carrier a)
  /-- `null` is accepted and supplies nothing. -/
  nullable : A → Bool
  /-- A record must supply the attribute. -/
  required : A → Bool

/-- What a record supplies. -/
abbrev Layer (A : Type) [Record A] := (a : A) → Option (Record.Carrier a)

namespace Layer

variable {A : Type} [Record A]

/-- The layer that supplies nothing. -/
def empty : Layer A := fun _ => none

/-- Each attribute from the upper layer if that supplies it, else from the lower one. -/
def overlay (below above : Layer A) : Layer A := fun a => (above a).or (below a)

/-- What a value supplies for an attribute. -/
def readAttribute (a : A) (v : Value) : Except Cause (Option (Record.Carrier a)) :=
  match v with
  | .null => if Record.nullable a then .ok none else (Record.read a .null).map some
  | v => (Record.read a v).map some

/-- The attribute with a key. -/
def attribute? (key : String) : Option A :=
  (Record.attributes (A := A)).find? fun a => Record.key a == key

/-- The keys of all attributes. -/
def knownKeys (A : Type) [Record A] : List String :=
  (Record.attributes (A := A)).map Record.key

/-! ## Records as objects -/

/-- A field of an object has a known key and a fitting value. -/
def checkField (A : Type) [Record A] (field : String × Value) : Except Cause Unit :=
  match attribute? (A := A) field.1 with
  | none => .error (.unknownField field.1)
  | some a => (readAttribute a field.2).map fun _ => ()

/-- No required attribute is missing. -/
def checkComplete (A : Type) [Record A] (fields : Fields) : Except Cause Unit :=
  match (Record.attributes (A := A)).find? fun a =>
      Record.required a && !fields.contains (Record.key a) with
  | none => .ok ()
  | some a => .error (.missingField (Record.key a))

/-- What fitting fields supply. -/
def ofFields (fields : Fields) : Layer A := fun a =>
  (fields.get? (Record.key a)).bind fun v => (readAttribute a v).toOption.join

/-! ## Records as arrays -/

/-- The items given for the attributes fit; `index` counts the items already seen. -/
def checkItems (total : Nat) : List A → List Value → Nat → Except Cause Unit
  | [], [], _ => .ok ()
  | [], _ :: _, _ => .error (.wrongLength total)
  | a :: rest, [], index =>
    if Record.required a then .error (.wrongLength index)
    else checkItems total rest [] (index + 1)
  | a :: rest, v :: items, index =>
    match readAttribute a v with
    | .error cause => .error cause
    | .ok _ => checkItems total rest items (index + 1)

/-- What fitting items supply. -/
def ofItems (items : List Value) : Layer A := fun a =>
  let index := (Record.attributes (A := A)).findIdx fun b => Record.key b == Record.key a
  items[index]?.bind fun v => (readAttribute a v).toOption.join

/-- The layer that a value is. -/
def read : Reader (Layer A)
  | .object fields => do
    fields.forM (checkField A)
    checkComplete A fields
    return ofFields fields
  | .array items => do
    checkItems items.length (Record.attributes (A := A)) items 0
    return ofItems items
  | _ => .error .wrongKind

/-- The value of an attribute that the record must supply. -/
def demand (layer : Layer A) (a : A) : Except Cause (Record.Carrier a) :=
  match layer a with
  | some value => .ok value
  | none => .error (.missingField (Record.key a))

end Layer

end CanTables.Schema
