import CanTables.Document.Token

/-!
# CanTables.Document.Reader — configuration text to configuration value

The words of a text are put together by a machine that keeps the objects and arrays still open on a
stack.  How deep they may nest is a parameter: configuration files may nest `maxDepth` levels.

A key that occurs twice in an object keeps the value it is given last.
-/

namespace CanTables.Document

/-- Levels of objects and arrays that a configuration file may have. -/
def maxDepth : Nat := 127

namespace Reader

/-- An object or array that is still open. -/
inductive Frame where
  /-- An array with the items read so far, last first. -/
  | array (items : List Value)
  /-- An object with the fields read so far, and the key whose value is being read. -/
  | object (fields : Fields) (key : String)

/-- What may come next. -/
inductive Expectation where
  /-- A value. -/
  | value
  /-- A first item, or the end of an empty array. -/
  | firstItem
  /-- A first key, or the end of an empty object. -/
  | firstKey
  /-- A key, behind a comma. -/
  | key
  /-- The colon between the key `name` and its value. -/
  | colon (name : String)
  /-- A comma or the end of what is open; the value just read is complete. -/
  | more (read : Value)

/-- The reader: what is open, innermost first, and what may come next. -/
structure State where
  stack : List Frame
  next : Expectation

/-- The reader before the first word. -/
def State.start : State := ⟨[], .value⟩

/-- Opens an object or an array where a value is expected. -/
def begin? (levels : Nat) (stack : List Frame) (token : Token) : Option State :=
  match token with
  | .scalar v => some ⟨stack, .more v⟩
  | .text s => some ⟨stack, .more (.text s)⟩
  | .openArray =>
    if stack.length < levels then some ⟨.array [] :: stack, .firstItem⟩ else none
  | .openObject =>
    if stack.length < levels then some ⟨.object [] "" :: stack, .firstKey⟩ else none
  | _ => none

/-- One word behind a complete value. -/
def continue? (stack : List Frame) (read : Value) (token : Token) : Option State :=
  match stack, token with
  | .array items :: outer, .comma => some ⟨.array (read :: items) :: outer, .value⟩
  | .array items :: outer, .closeArray =>
    some ⟨outer, .more (.array (read :: items).reverse)⟩
  | .object fields key :: outer, .comma =>
    some ⟨.object (Keyed.insert fields key read) "" :: outer, .key⟩
  | .object fields key :: outer, .closeObject =>
    some ⟨outer, .more (.object (Keyed.insert fields key read))⟩
  | _, _ => none

/-- One word anywhere. -/
def step (levels : Nat) (s : State) (token : Token) : Option State :=
  match s.next with
  | .value => begin? levels s.stack token
  | .firstItem =>
    match s.stack, token with
    | _ :: outer, .closeArray => some ⟨outer, .more (.array [])⟩
    | _, _ => begin? levels s.stack token
  | .firstKey =>
    match s.stack, token with
    | _ :: outer, .closeObject => some ⟨outer, .more (.object [])⟩
    | _, .text name => some ⟨s.stack, .colon name⟩
    | _, _ => none
  | .key =>
    match token with
    | .text name => some ⟨s.stack, .colon name⟩
    | _ => none
  | .colon name =>
    match s.stack, token with
    | .object fields _ :: outer, .colon => some ⟨.object fields name :: outer, .value⟩
    | _, _ => none
  | .more read => continue? s.stack read token

/-- The value read, once nothing is open any more. -/
def finish? (s : State) : Option Value :=
  match s.stack, s.next with
  | [], .more read => some read
  | _, _ => none

end Reader

/-- The value that a text holds, nested at most `levels` deep. -/
def Value.ofText? (levels : Nat) (text : String) : Option Value := do
  let tokens ← Token.ofChars? text.toList
  let state ← tokens.foldlM (Reader.step levels) .start
  Reader.finish? state

end CanTables.Document
