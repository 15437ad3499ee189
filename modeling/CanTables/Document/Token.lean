import CanTables.Document.Value
import CanTables.Numeric.Significand

/-!
# CanTables.Document.Token — the words of a configuration text

A configuration text is JSON as RFC 8259 defines it, with nothing added: no byte order mark, no
comment, no control character inside a string and no half of a surrogate pair.  The scanner is a
machine that takes one character per step, so it is total without a measure; `Token.ofChars?` runs
it over a whole text.

A number is whole when it is written without point and exponent, is not a negative zero and fits 64
bits, signed or unsigned; any other number is a 64-bit real.  For numerals of few digits that is the
nearest one, for others it may be next to it (`CanTables.Numeric.Significand`).  A real that is too
large is refused.
-/

namespace CanTables.Document

open Numeric Text

/-- The words of a configuration text. -/
inductive Token where
  | openObject
  | closeObject
  | openArray
  | closeArray
  | colon
  | comma
  /-- A string, which may be a key or a value. -/
  | text (s : String)
  /-- A number or one of the three named values. -/
  | scalar (v : Value)

namespace Token

/-! ## Numbers and names -/

/-- A whole number fits a signed or an unsigned 64-bit word. -/
def fitsWord (n : Int) : Bool := -0x8000000000000000 ≤ n && n < 0x10000000000000000

/-- The value of a numeral with a sign. -/
def numeral? (negative : Bool) (cs : List Char) : Option Value := do
  let n ← Numeral.split? cs
  guard n.isStrict
  let size := Digits.decimalValue n.integral
  let whole : Int := if negative then -size else size
  if n.isWhole && fitsWord whole && !(negative && size == 0) then
    return .int whole
  else
    (n.gathered negative).scaled?.map .real

/-- The value of a run of letters, digits, points and signs. -/
def word? (cs : List Char) : Option Value :=
  if cs = "null".toList then some .null
  else if cs = "true".toList then some (.bool true)
  else if cs = "false".toList then some (.bool false)
  else
    match cs with
    | '-' :: rest => numeral? true rest
    | _ => numeral? false cs

/-- A character that numbers and names are made of. -/
def isWordChar (c : Char) : Bool := c.isAlphanum || c == '-' || c == '+' || c == '.'

/-- A character that may stand between words. -/
def isSpace (c : Char) : Bool := c == ' ' || c == '\t' || c == '\n' || c == '\r'

/-- The word that a mark stands for. -/
def mark? (c : Char) : Option Token :=
  if c = '\x7b' then some .openObject
  else if c = '\x7d' then some .closeObject
  else if c = '[' then some .openArray
  else if c = ']' then some .closeArray
  else if c = ':' then some .colon
  else if c = ',' then some .comma
  else none

/-- The character that a one-letter escape stands for. -/
def escape? (c : Char) : Option Char :=
  if c = '"' ∨ c = '\\' ∨ c = '/' then some c
  else if c = 'b' then some '\x08'
  else if c = 'f' then some '\x0c'
  else if c = 'n' then some '\n'
  else if c = 'r' then some '\r'
  else if c = 't' then some '\t'
  else none

/-! ## The machine -/

/-- The first half of a surrogate pair, of which the second half must follow. -/
def isHighSurrogate (code : Nat) : Bool := 0xD800 ≤ code && code ≤ 0xDBFF

/-- The second half of a surrogate pair. -/
def isLowSurrogate (code : Nat) : Bool := 0xDC00 ≤ code && code ≤ 0xDFFF

/-- Where the scanner stands.  Characters read so far are kept last first. -/
inductive Mode where
  /-- Between words. -/
  | between
  /-- Inside a number or a name. -/
  | word (read : List Char)
  /-- Inside a string. -/
  | quoted (read : List Char)
  /-- Behind a backslash; a first half of a pair may be waiting for the second. -/
  | escaped (read : List Char) (high : Option Nat)
  /-- Inside a code point escape of which `count` digits have been read. -/
  | code (read : List Char) (high : Option Nat) (count value : Nat)
  /-- Behind the first half of a surrogate pair, where only a backslash may follow. -/
  | halfPair (read : List Char) (high : Nat)

/-- The scanner: where it stands and the words it has completed, last first. -/
structure Scanner where
  mode : Mode
  words : List Token

/-- The scanner before the first character. -/
def Scanner.start : Scanner := ⟨.between, []⟩

/-- One character between words. -/
def stepBetween (words : List Token) (c : Char) : Option Scanner :=
  if isSpace c then some ⟨.between, words⟩
  else if c = '"' then some ⟨.quoted [], words⟩
  else if isWordChar c then some ⟨.word [c], words⟩
  else (mark? c).map fun token => ⟨.between, token :: words⟩

/-- The mode behind a complete code point escape. -/
def finishCode (read : List Char) (high : Option Nat) (value : Nat) : Option Mode :=
  match high with
  | some first =>
    if isLowSurrogate value then
      some (.quoted (Char.ofNat (0x10000 + (first - 0xD800) * 0x400 + (value - 0xDC00)) :: read))
    else none
  | none =>
    if isHighSurrogate value then some (.halfPair read value)
    else if isLowSurrogate value then none
    else some (.quoted (Char.ofNat value :: read))

/-- One character anywhere; nothing is left of a text that no word starts with. -/
def step (s : Scanner) (c : Char) : Option Scanner :=
  match s.mode with
  | .between => stepBetween s.words c
  | .word read =>
    if isWordChar c then some ⟨.word (c :: read), s.words⟩
    else (word? read.reverse).bind fun v => stepBetween (.scalar v :: s.words) c
  | .quoted read =>
    if c = '"' then some ⟨.between, .text (String.ofList read.reverse) :: s.words⟩
    else if c = '\\' then some ⟨.escaped read none, s.words⟩
    else if c.toNat < 0x20 then none
    else some ⟨.quoted (c :: read), s.words⟩
  | .escaped read high =>
    if c = 'u' then some ⟨.code read high 0 0, s.words⟩
    else if high.isSome then none
    else (escape? c).map fun d => ⟨.quoted (d :: read), s.words⟩
  | .code read high count value =>
    (Digits.value? c).bind fun digit =>
      if count = 3 then
        (finishCode read high (value * 16 + digit)).map fun mode => ⟨mode, s.words⟩
      else some ⟨.code read high (count + 1) (value * 16 + digit), s.words⟩
  | .halfPair read high =>
    if c = '\\' then some ⟨.escaped read (some high), s.words⟩ else none

/-- The words read, once the text has ended between words or behind a last number or name. -/
def finish? (s : Scanner) : Option (List Token) :=
  match s.mode with
  | .between => some s.words.reverse
  | .word read => (word? read.reverse).map fun v => (Token.scalar v :: s.words).reverse
  | _ => none

/-- The words of a text. -/
def ofChars? (cs : List Char) : Option (List Token) := (cs.foldlM step .start).bind finish?

end Token

end CanTables.Document
