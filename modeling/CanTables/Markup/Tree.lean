import CanTables.Markup.Event

/-!
# CanTables.Markup.Tree — the elements of an XML text

The marks of a text are put together by a machine that keeps the elements still open on a stack.
Only white space may stand before the first element, as itself or as references, every end tag must
name the element it ends, and nothing behind the first element is looked at.

What a start tag holds is kept as it is: `tagName` and `localName` look into it here, and
`CanTables.Markup.Attribute` does for what stands behind the name.
-/

namespace CanTables.Markup

/-- A part of an element: another element with what its start tag holds, text, a reference, or a
document type, which may stand anywhere. -/
inductive Node where
  | element (tag : List Char) (children : List Node)
  | text (chars : List Char)
  | reference (name : List Char)
  | documentType
  deriving Repr, Inhabited

/-! ## Start tags -/

/-- The name in a start tag. -/
def tagName (tag : List Char) : List Char := tag.takeWhile fun c => !isSpace c

/-- The name in a start tag without what stands before its first colon. -/
def localName (tag : List Char) : String :=
  let name := tagName tag
  match name.dropWhile (· != ':') with
  | [] => String.ofList name
  | _ :: rest => String.ofList rest

/-! ## Building the tree -/

/-- An element that is still open: what its start tag holds, and its parts, last first. -/
structure OpenElement where
  tag : List Char
  children : List Node

/-- The elements that are open, innermost first, and the first element once it is complete. -/
structure Builder where
  stack : List OpenElement
  root : Option Node

/-- The builder with one more part of the innermost element, or with the first element. -/
def Builder.addPart (stack : List OpenElement) (part : Node) : Builder :=
  match stack with
  | [] => ⟨[], some part⟩
  | inner :: outer => ⟨{ inner with children := part :: inner.children } :: outer, none⟩

/-- The text without the white space it ends with. -/
def trimEnd (cs : List Char) : List Char := (cs.reverse.dropWhile isSpace).reverse

/-- The name in an end tag: the white space behind a name does not belong to it, but white space
alone is a name. -/
def endName (inside : List Char) : List Char :=
  let name := trimEnd inside
  if name.isEmpty then inside else name

/-- A reference that stands for white space. -/
def isSpaceReference (name : List Char) : Bool :=
  ((resolveReference? name).map isSpace).getD false

/-- One mark. -/
def Builder.step (b : Builder) (e : Event) : Option Builder :=
  if b.root.isSome then some b
  else
    match e with
    | .opening tag => some ⟨⟨tag, []⟩ :: b.stack, none⟩
    | .standalone tag => some (addPart b.stack (.element tag []))
    | .closing name =>
      match b.stack with
      | [] => none
      | inner :: outer =>
        if endName name = tagName inner.tag then
          some (addPart outer (.element inner.tag inner.children.reverse))
        else none
    | .text chars =>
      if b.stack.isEmpty then (if chars.all isSpace then some b else none)
      else some (addPart b.stack (.text chars))
    | .reference name =>
      if b.stack.isEmpty then (if isSpaceReference name then some b else none)
      else some (addPart b.stack (.reference name))
    | .documentType =>
      if b.stack.isEmpty then some b else some (addPart b.stack .documentType)

/-- The first element of a text. -/
def Node.ofText? (text : String) : Option Node :=
  ((Event.ofChars text.toList).foldlM Builder.step ⟨[], none⟩).bind Builder.root

/-! ## Text inside elements -/

/-- The text that parts make up, if no element is among them and every reference stands for a
character. -/
def textOf? : List Node → Option (List Char)
  | [] => some []
  | .text chars :: rest => (textOf? rest).map (chars ++ ·)
  | .reference name :: rest =>
    (resolveReference? name).bind fun c => (textOf? rest).map (c :: ·)
  | .documentType :: rest => textOf? rest
  | .element .. :: _ => none

end CanTables.Markup
