import CanTables.Document.Value

/-!
# CanTables.Document.Overlay — putting one configuration layer on top of another

`overlay below above` is the one way in which files are layered: objects merge field by field and
in depth, arrays under a common key are concatenated with the lower layer's items first, and any
other value of the upper layer replaces what is below it.  Two values that are not both objects do
not merge at the top: the upper one stands.

The lookup along a path of keys (`Value.at?`) is the view through which the result of a merge is
described.
-/

namespace CanTables.Document

namespace Value

mutual

/-- Merges two values that stand under a common key. -/
def overlayEntry (below : Value) : Value → Value
  | .object fields =>
    match below with
    | .object lower => .object (overlayFields lower fields)
    | _ => .object fields
  | .array items =>
    match below with
    | .array lower => .array (lower ++ items)
    | _ => .array items
  | above => above

/-- Merges the fields of an upper layer into those of a lower one, one after the other. -/
def overlayFields (lower : List (String × Value)) : List (String × Value) → List (String × Value)
  | [] => lower
  | (key, value) :: rest =>
    overlayFields
      (Keyed.upsert key
        (fun
          | none => value
          | some old => overlayEntry old value)
        lower)
      rest

end

/-- Puts one layer on top of another. -/
def overlay (below above : Value) : Value :=
  match below, above with
  | .object lower, .object upper => .object (overlayFields lower upper)
  | _, above => above

/-- The value at the end of a path of keys, looking through objects only. -/
def at? (v : Value) : List String → Option Value
  | [] => some v
  | key :: path => (v.field? key).bind (at? · path)

end Value

end CanTables.Document
