import CanTables.Markup.Scope

/-!
# CanTables.Markup.Entry — elements read as entries

An entry is an element whose parts are fields, which hold text and occur at most once, and items of
one name, which are entries again.  Parts with another name are passed over, and so are attributes
and text, as long as they are in order.  A label before the name of a part does not count, but all
items must carry the same.

A field that may be nil is absent where its start tag, or that of the entry, marks it so; then what
it holds is passed over.

An unknown part is passed over without being looked at, unless an item came before it: from there on
every part has to be sound.
-/

namespace CanTables.Markup

/-- What an entry consists of.  One with items has no fields that may be nil. -/
structure Shape where
  /-- The fields that always have a value. -/
  fields : List String
  /-- The fields that may be nil. -/
  nillable : List String
  /-- The name of the items. -/
  item : Option String
  deriving DecidableEq, Repr

/-- An entry: its fields, with the text of those that are not nil, and its items. -/
structure Entry (α : Type) where
  fields : List (String × Option String)
  items : List α
  deriving Repr

namespace Entry

/-- The text of a field that is there and not nil. -/
def text? {α : Type} (e : Entry α) (name : String) : Option String := (e.fields.lookup name).join

/-- An entry while its parts are read, last first. -/
structure Partial (α : Type) where
  scope : Scope
  entry : Entry α
  /-- The name of the items with its label, once there is one. -/
  itemName : Option (List Char)

/-- How an item is read: from the scope before it, what its start tag holds, and its parts. -/
abbrev ItemReader (α : Type) := Scope → List Char → List Node → Option (Scope × α)

namespace Partial

variable {α : Type}

/-- One more field, which must be new. -/
def addField (p : Partial α) (name : String) (text : Option String) (scope : Scope) :
    Option (Partial α) :=
  if (p.entry.fields.lookup name).isSome then none
  else some { p with scope, entry := { p.entry with fields := (name, text) :: p.entry.fields } }

/-- A field that has a value. -/
def readField (p : Partial α) (name : String) (tag : List Char) (children : List Node) :
    Option (Partial α) :=
  if bindingsFit tag then
    (textOf? children).bind fun chars => p.addField name (some (String.ofList chars)) p.scope
  else none

/-- A field of an entry with a start tag, where the field may be nil. -/
def readNillable (p : Partial α) (owner : List Char) (name : String) (tag : List Char)
    (children : List Node) : Option (Partial α) :=
  (p.scope.ahead tag children).bind fun scope =>
    if scope.isNil owner || scope.isNil tag then
      (p.scope.passOver tag children).bind (p.addField name none)
    else p.readField name tag children

/-- An item, whose name must be that of the items before it. -/
def readItem (p : Partial α) (reader : ItemReader α) (tag : List Char) (children : List Node) :
    Option (Partial α) :=
  if p.itemName = none ∨ p.itemName = some (tagName tag) then
    (reader p.scope tag children).map fun (scope, item) =>
      ⟨scope, { p.entry with items := item :: p.entry.items }, some (tagName tag)⟩
  else none

/-- An unknown part. -/
def readUnknown (p : Partial α) (tag : List Char) (children : List Node) : Option (Partial α) :=
  if p.itemName.isSome then if isSound (.element tag children) then some p else none
  else (p.scope.passOver tag children).map fun scope => { p with scope }

/-- One part of an entry with a start tag. -/
def step (shape : Shape) (reader : ItemReader α) (owner : List Char) (p : Partial α) :
    Node → Option (Partial α)
  | .text _ | .documentType => some p
  | .reference name => if (resolveReference? name).isSome then some p else none
  | .element tag children =>
    let name := localName tag
    if shape.item = some name then p.readItem reader tag children
    else if shape.fields.contains name then p.readField name tag children
    else if shape.nillable.contains name then p.readNillable owner name tag children
    else p.readUnknown tag children

/-- The entry once all parts are read. -/
def finish (p : Partial α) : Entry α := ⟨p.entry.fields.reverse, p.entry.items.reverse⟩

end Partial

/-- Reads an element as an entry, its attributes being in order, and yields the scope behind it. -/
def read? {α : Type} (shape : Shape) (reader : ItemReader α) (scope : Scope) (tag : List Char)
    (children : List Node) : Option (Scope × Entry α) := do
  guard (attributesFit tag)
  let inside ← scope.enter tag
  let p ← children.foldlM (Partial.step shape reader tag) ⟨inside, ⟨[], []⟩, none⟩
  return (p.scope.leave, p.finish)

end Entry

end CanTables.Markup
