import CanTables.Text.Digits

/-!
# CanTables.Text.Literal — string literals of the emitted sources

The emitted C++ and Python sources share one form of string literal: double quotes around the text,
a backslash before a quote or a backslash, short escapes for line feed, carriage return and tab,
and three octal digits for every other control character below 0x80.  All other characters stand
for themselves.

`quote` writes this form; `read` reads the part of the two languages' literal grammar that the form
lives in, where an octal escape takes up to three digits greedily.  `quote` always writes all three
digits, so a digit that follows in the text is never swallowed.
-/

namespace CanTables.Text.Literal

/-- The escaped form of one character. -/
def escape (c : Char) : List Char :=
  if c = '"' then ['\\', '"']
  else if c = '\\' then ['\\', '\\']
  else if c = '\n' then ['\\', 'n']
  else if c = '\r' then ['\\', 'r']
  else if c = '\t' then ['\\', 't']
  else if c.toNat < 0x20 ∨ c.toNat = 0x7F then
    ['\\', Nat.digitChar (c.toNat / 64), Nat.digitChar (c.toNat / 8 % 8),
      Nat.digitChar (c.toNat % 8)]
  else [c]

/-- The literal of a text, quotes included. -/
def quoteChars (cs : List Char) : List Char :=
  '"' :: (cs.flatMap escape ++ ['"'])

/-- The literal of a text, quotes included. -/
def quote (text : String) : String := String.ofList (quoteChars text.toList)

/-! ## Reading a literal back -/

/-- Where a reader stands inside a literal. -/
inductive Mode where
  /-- Between characters. -/
  | plain
  /-- Behind a backslash. -/
  | escaped
  /-- Inside an octal escape of which `digits` digits, at most two, have been read. -/
  | octal (digits : Nat) (value : Nat)
  deriving DecidableEq, Repr

/-- The characters that a one-letter escape may name. -/
def letterEscape? (c : Char) : Option Char :=
  if c = '"' ∨ c = '\\' then some c
  else if c = 'n' then some '\n'
  else if c = 'r' then some '\r'
  else if c = 't' then some '\t'
  else none

/-- Puts a character in front of the text read. -/
def keep (c : Char) : Option (List Char × List Char) → Option (List Char × List Char)
  | none => none
  | some (text, after) => some (c :: text, after)

/-- Reads up to the first unescaped quote: the text read and what follows the quote.  `none` is a
literal that does not end or an escape that the form does not have. -/
def readFrom : Mode → List Char → Option (List Char × List Char)
  | _, [] => none
  | mode, c :: rest =>
    let plain :=
      if c = '"' then some ([], rest)
      else if c = '\\' then readFrom .escaped rest
      else keep c (readFrom .plain rest)
    match mode with
    | .plain => plain
    | .escaped =>
      match letterEscape? c, Digits.valueIn? 8 c with
      | some d, _ => keep d (readFrom .plain rest)
      | none, some x => readFrom (.octal 1 x) rest
      | none, none => none
    | .octal digits value =>
      match Digits.valueIn? 8 c with
      | none => keep (Char.ofNat value) plain
      | some x =>
        if digits = 1 then readFrom (.octal 2 (value * 8 + x)) rest
        else keep (Char.ofNat (value * 8 + x)) (readFrom .plain rest)

/-- The literal at the front of a text: what it denotes and what follows it. -/
def read : List Char → Option (List Char × List Char)
  | '"' :: rest => readFrom .plain rest
  | _ => none

end CanTables.Text.Literal
