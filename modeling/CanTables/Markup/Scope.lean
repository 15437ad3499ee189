import CanTables.Markup.Attribute

/-!
# CanTables.Markup.Scope — the labels of name spaces

A start tag declares the labels that names may carry before a colon, up to the end of its element.
Two labels, `xml` and `xmlns`, are reserved with their name spaces: a tag that declares one of them
differently, or one of their name spaces under another label, is refused.

Labels matter for one attribute, `nil` of the name space for schema instances, which marks an
element as having no value.

A scope counts the start tags that it has not seen the end tags of; a label is forgotten when the
count falls below the one it was declared at.  In an element that is passed over only the first mark
is seen.  Unless that is the end tag, the count stays higher than before, and labels of the element
and of those around it stay in force for longer.
-/

namespace CanTables.Markup

/-- A label that stands for a name space, declared with a number of elements open. -/
structure Binding where
  depth : Nat
  label : List Char
  space : List Char
  deriving DecidableEq, Repr

/-- The number of open elements, and the labels in force, last first. -/
structure Scope where
  depth : Nat
  bindings : List Binding
  deriving DecidableEq, Repr

/-- The name spaces with a fixed meaning differ in their paths only. -/
def fixedSpace (path : String) : List Char :=
  "http:".toList ++ '/' :: '/' :: "www.w3.org".toList ++ '/' :: path.toList

/-- The name space reserved for the label `xml`. -/
def markupSpace : List Char := fixedSpace "XML/1998/namespace"

/-- The name space reserved for the label `xmlns`. -/
def labelSpace : List Char := fixedSpace "2000/xmlns/"

/-- The name space for schema instances. -/
def instanceSpace : List Char := fixedSpace "2001/XMLSchema-instance"

/-- A name that carries a label, cut at its first colon. -/
def splitLabel? (name : List Char) : Option (List Char × List Char) :=
  match name.dropWhile (· != ':') with
  | [] => none
  | _ :: rest => some (name.takeWhile (· != ':'), rest)

namespace Scope

/-- The scope outside of all elements. -/
def outermost : Scope := ⟨0, []⟩

/-- The scope with what one more attribute declares. -/
def declare (s : Scope) (a : Attribute) : Option Scope :=
  match splitLabel? a.name with
  | none => some s
  | some (word, label) =>
    if word ≠ "xmlns".toList then some s
    else if label = "xml".toList then if a.value = markupSpace then some s else none
    else if label = "xmlns".toList ∨ a.value = markupSpace ∨ a.value = labelSpace then none
    else some { s with bindings := ⟨s.depth, label, a.value⟩ :: s.bindings }

/-- The scope behind a start tag.  Attributes count up to the first faulty one. -/
def enter (s : Scope) (tag : List Char) : Option Scope :=
  (((attributes false tag).takeWhile Option.isSome).filterMap id).foldlM declare
    { s with depth := s.depth + 1 }

/-- The scope behind an end tag. -/
def leave (s : Scope) : Scope :=
  ⟨s.depth - 1, s.bindings.dropWhile fun d => s.depth - 1 < d.depth⟩

/-- The name space that a label stands for. -/
def space? (s : Scope) (label : List Char) : Option (List Char) :=
  if label.isEmpty then none
  else (s.bindings.find? fun d => d.label == label).map Binding.space

/-- An attribute marks its element as having no value. -/
def marksNil (s : Scope) (a : Attribute) : Bool :=
  match splitLabel? a.name with
  | some (label, name) =>
    s.space? label == some instanceSpace && name == "nil".toList &&
      (a.value == "true".toList || a.value == "1".toList)
  | none => false

/-- A start tag marks its element as having no value. -/
def isNil (s : Scope) (tag : List Char) : Bool :=
  ((attributes true tag).filterMap id).any s.marksNil

/-- The scope behind the start tag of an element and the one that follows it at once, if one
does. -/
def ahead (s : Scope) (tag : List Char) (children : List Node) : Option Scope :=
  match children with
  | .element inner _ :: _ => (s.enter tag).bind fun inside => inside.enter inner
  | _ => s.enter tag

/-- The scope behind an element that is passed over: only an element without parts is left. -/
def passOver (s : Scope) (tag : List Char) (children : List Node) : Option Scope :=
  (s.ahead tag children).map fun inside => if children.isEmpty then inside.leave else inside

end Scope

/-- A start tag declares only what may be declared. -/
def bindingsFit (tag : List Char) : Bool := (Scope.outermost.enter tag).isSome

mutual

/-- Every start tag in a part declares only what may be declared, and every reference stands for a
character. -/
def isSound : Node → Bool
  | .element tag children => bindingsFit tag && areSound children
  | .text _ => true
  | .reference name => (resolveReference? name).isSome
  | .documentType => true

/-- All of the parts are sound. -/
def areSound : List Node → Bool
  | [] => true
  | part :: rest => isSound part && areSound rest

end

end CanTables.Markup
