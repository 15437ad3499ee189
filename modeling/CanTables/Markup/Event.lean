import CanTables.Text.Digits

/-!
# CanTables.Markup.Event — the marks of an XML text

The scanner takes one character per step and yields tags, character data, references and document
types in the order in which they end.  Comments and processing instructions are passed over.  What
is inside a tag or a reference is not looked at here beyond where it ends: quotes protect a closing
angle bracket, also in an end tag, and a reference ends with a semicolon.

Character data comes with every way of ending a line made into a line feed.  References are not
character data yet, so that a carriage return which a reference names is kept.

Scanning stops at the first place where the text is not well formed and yields the marks before it;
whether they are enough is for `CanTables.Markup.Tree` to say.
-/

namespace CanTables.Markup

/-- A mark of an XML text. -/
inductive Event where
  /-- A start tag, with the text between its brackets. -/
  | opening (inside : List Char)
  /-- An empty element tag, with the text between its brackets up to the closing slash. -/
  | standalone (inside : List Char)
  /-- An end tag, with the text between its brackets behind the slash. -/
  | closing (inside : List Char)
  /-- Character data. -/
  | text (chars : List Char)
  /-- A reference, with the text between its ampersand and its semicolon. -/
  | reference (name : List Char)
  /-- A document type. -/
  | documentType
  deriving DecidableEq, Repr

/-- White space in XML. -/
def isSpace (c : Char) : Bool := c == ' ' || c == '\t' || c == '\n' || c == '\r'

/-- The text with a line feed for every line end: a carriage return with a line feed or a next line
behind it, and each of these alone, and a line separator. -/
def unifyLineEnds : List Char → List Char
  | [] => []
  | '\r' :: '\n' :: rest => '\n' :: unifyLineEnds rest
  | '\r' :: '\u0085' :: rest => '\n' :: unifyLineEnds rest
  | c :: rest =>
    (if c = '\r' ∨ c = '\u0085' ∨ c = '\u2028' then '\n' else c) :: unifyLineEnds rest

/-- A carriage return takes one character behind it along, and only one that ends a line. -/
example : unifyLineEnds ['a', '\r', '\r', '\n', '\n', '\r', ' '] =
    ['a', '\n', '\n', '\n', '\n', ' '] := rfl

namespace Event

/-- Where the scanner stands.  Characters read so far are kept last first. -/
inductive Mode where
  | content (read : List Char)
  | reference (read : List Char)
  /-- Behind an opening angle bracket. -/
  | bracket
  /-- Inside a start tag, perhaps inside a quoted value. -/
  | tag (read : List Char) (quote : Option Char)
  /-- Inside an end tag, perhaps inside quotes. -/
  | endTag (read : List Char) (quote : Option Char)
  /-- Behind `<!`, where it is not decided yet what follows. -/
  | declaration (read : List Char)
  /-- Inside a comment, behind a number of dashes. -/
  | comment (dashes : Nat)
  /-- Inside a character data section. -/
  | section (read : List Char)
  /-- Inside a document type, with the brackets open, perhaps with more than white space read. -/
  | documentType (depth : Nat) (named : Bool)
  /-- Behind `<?`. -/
  | question
  /-- Inside a processing instruction, perhaps behind a question mark. -/
  | instruction (mark : Bool)
  /-- Behind something that is not well formed. -/
  | broken
  deriving DecidableEq, Repr

/-- Where the scanner stands and what it has read, the last mark first. -/
structure Scanner where
  mode : Mode
  events : List Event
  deriving Repr

/-- The scanner before the first character. -/
def Scanner.start : Scanner := ⟨.content [], []⟩

/-- Character data, last character first. -/
def ofData (read : List Char) : Event := .text (unifyLineEnds read.reverse)

/-- The marks read, with character data between tags that has just ended. -/
def flush (read : List Char) (events : List Event) : List Event :=
  if read.isEmpty then events else ofData read :: events

/-- The mark of a start tag or an empty element tag. -/
def ofTag (read : List Char) : Event :=
  match read with
  | '/' :: rest => .standalone rest.reverse
  | _ => .opening read.reverse

/-- The word that opens a character data section, last character first. -/
def sectionMark : List Char := "[CDATA[".toList.reverse

/-- The word that opens a document type, last character first and in lower case. -/
def documentTypeMark : List Char := "doctype".toList.reverse

/-- The mode behind one more character behind `<!`. -/
def stepDeclaration (read : List Char) (c : Char) : Mode :=
  let now := c :: read
  if now = ['-', '-'] then .comment 0
  else if now = sectionMark then .section []
  else if now.map Char.toLower = documentTypeMark then .documentType 0 false
  else if now.length < sectionMark.length then .declaration now
  else .broken

/-- The quote that is open behind one more character of a tag. -/
def stepQuote (quote : Option Char) (c : Char) : Option Char :=
  match quote with
  | none => if c = '"' ∨ c = '\'' then some c else none
  | some q => if c = q then none else some q

/-- One character anywhere. -/
def step (s : Scanner) (c : Char) : Scanner :=
  match s.mode with
  | .content read =>
    if c = '<' then ⟨.bracket, flush read s.events⟩
    else if c = '&' then ⟨.reference [], flush read s.events⟩
    else ⟨.content (c :: read), s.events⟩
  | .reference read =>
    if c = ';' then ⟨.content [], .reference read.reverse :: s.events⟩
    else if c = '<' ∨ c = '&' then ⟨.broken, s.events⟩
    else ⟨.reference (c :: read), s.events⟩
  | .bracket =>
    if c = '/' then ⟨.endTag [] none, s.events⟩
    else if c = '!' then ⟨.declaration [], s.events⟩
    else if c = '?' then ⟨.question, s.events⟩
    else if c = '>' then ⟨.content [], .opening [] :: s.events⟩
    else ⟨.tag [c] (stepQuote none c), s.events⟩
  | .tag read quote =>
    if c = '>' ∧ quote = none then ⟨.content [], ofTag read :: s.events⟩
    else ⟨.tag (c :: read) (stepQuote quote c), s.events⟩
  | .endTag read quote =>
    if c = '>' ∧ quote = none then ⟨.content [], .closing read.reverse :: s.events⟩
    else ⟨.endTag (c :: read) (stepQuote quote c), s.events⟩
  | .declaration read => ⟨stepDeclaration read c, s.events⟩
  | .comment dashes =>
    if c = '-' then ⟨.comment (dashes + 1), s.events⟩
    else if c = '>' ∧ 2 ≤ dashes then ⟨.content [], s.events⟩
    else ⟨.comment 0, s.events⟩
  | .section read =>
    match c, read with
    | '>', ']' :: ']' :: rest => ⟨.content [], ofData rest :: s.events⟩
    | _, _ => ⟨.section (c :: read), s.events⟩
  | .documentType depth named =>
    if c = '<' then ⟨.documentType (depth + 1) true, s.events⟩
    else if c = '>' then
      match depth with
      | 0 => if named then ⟨.content [], .documentType :: s.events⟩ else ⟨.broken, s.events⟩
      | depth + 1 => ⟨.documentType depth true, s.events⟩
    else ⟨.documentType depth (named || !isSpace c), s.events⟩
  | .question => if c = '>' then ⟨.broken, s.events⟩ else ⟨.instruction (c == '?'), s.events⟩
  | .instruction mark =>
    if c = '>' ∧ mark then ⟨.content [], s.events⟩ else ⟨.instruction (c == '?'), s.events⟩
  | .broken => s

/-- The marks of a text, as far as it is well formed; a byte order mark in front is passed over. -/
def ofChars (cs : List Char) : List Event :=
  let body :=
    match cs with
    | '\uFEFF' :: rest => rest
    | _ => cs
  (body.foldl step .start).events.reverse

end Event

/-! ## References -/

/-- The character with a code point, if it is one that XML text may name. -/
def charOfCode? (code : Nat) : Option Char :=
  if h : code.isValidChar then if code = 0 then none else some (Char.ofNatAux code h) else none

/-- The character that a reference stands for. -/
def resolveReference? (name : List Char) : Option Char :=
  if name = "amp".toList then some '&'
  else if name = "lt".toList then some '<'
  else if name = "gt".toList then some '>'
  else if name = "quot".toList then some '"'
  else if name = "apos".toList then some '\''
  else
    match name with
    | '#' :: 'x' :: digits => (Text.Digits.read? 16 digits).bind charOfCode?
    | '#' :: digits => (Text.Digits.read? 10 digits).bind charOfCode?
    | _ => none

end CanTables.Markup
