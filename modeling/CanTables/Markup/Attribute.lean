import CanTables.Markup.Tree

/-!
# CanTables.Markup.Attribute — the attributes of a start tag

Attributes are names with quoted values.  Reading does not stop at one that is faulty: it goes on
where the next one can begin, so that `attributes` yields a `none` for each fault among the
attributes that are in order.  `attributesFit` says that there is no fault.

A name ends at an equals sign or white space; its first character may be anything, also an equals
sign.  No white space is needed between a value and the next name.
-/

namespace CanTables.Markup

/-- An attribute, with its value as written. -/
structure Attribute where
  name : List Char
  value : List Char
  deriving DecidableEq, Repr

namespace Attribute

/-- Where a reader of attributes stands.  Characters read so far are kept last first. -/
inductive Mode where
  | gap
  | name (read : List Char)
  /-- Behind a name and white space, where the equals sign must follow. -/
  | named (read : List Char)
  /-- Behind the equals sign, where a quote must follow. -/
  | equals (name : List Char)
  | value (name : List Char) (quote : Char) (read : List Char)
  /-- In the rest of a fault, which white space ends. -/
  | fault
  deriving DecidableEq, Repr

/-- A reader of attributes with the names and the attributes read so far, the last first. -/
structure Reader where
  mode : Mode
  names : List (List Char)
  found : List (Option Attribute)

/-- The reader behind a complete name, which is faulty if names must be new and it is not. -/
def Reader.finishName (r : Reader) (unique : Bool) (name : List Char) : Reader :=
  if unique && r.names.contains name then { r with mode := .fault, found := none :: r.found }
  else { r with mode := .equals name, names := name :: r.names }

/-- One character. -/
def Reader.step (unique : Bool) (r : Reader) (c : Char) : Reader :=
  match r.mode with
  | .gap => if isSpace c then r else { r with mode := .name [c] }
  | .name read =>
    if c = '=' then r.finishName unique read.reverse
    else if isSpace c then { r with mode := .named read }
    else { r with mode := .name (c :: read) }
  | .named read =>
    if c = '=' then r.finishName unique read.reverse
    else if isSpace c then r
    else { r with mode := .name [c], found := none :: r.found }
  | .equals name =>
    if isSpace c then r
    else if c = '"' ∨ c = '\'' then { r with mode := .value name c [] }
    else { r with mode := .fault, found := none :: r.found }
  | .value name quote read =>
    if c = quote then { r with mode := .gap, found := some ⟨name, read.reverse⟩ :: r.found }
    else { r with mode := .value name quote (c :: read) }
  | .fault => if isSpace c then { r with mode := .gap } else r

/-- The attributes read, in order; one that has not ended is faulty. -/
def Reader.finish (r : Reader) : List (Option Attribute) :=
  match r.mode with
  | .gap | .fault => r.found.reverse
  | _ => (none :: r.found).reverse

end Attribute

/-- The attributes in a start tag, with `none` for a fault.  Where names must be unique, one that
was there before is a fault. -/
def attributes (unique : Bool) (tag : List Char) : List (Option Attribute) :=
  ((tag.dropWhile fun c => !isSpace c).foldl (Attribute.Reader.step unique) ⟨.gap, [], []⟩).finish

/-- A value without quotes is a fault, behind which reading goes on. -/
example : attributes true ['t', ' ', 'a', '=', '1', ' ', 'b', '=', '"', '2', '"'] =
    [none, some ⟨['b'], ['2']⟩] := rfl

/-- The attributes in a start tag are names with quoted values, each name once. -/
def attributesFit (tag : List Char) : Bool := (attributes true tag).all Option.isSome

end CanTables.Markup
