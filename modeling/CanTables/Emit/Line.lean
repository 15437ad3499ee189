/-!
# CanTables.Emit.Line — lines of emitted source

An emitted source is a list of lines; a line has code and may have a comment behind it.  Names of
message sets, messages and signals that only help a reader stand in comments, so they can be told
apart from what a compiler sees.  Extra source files are copied as they are.

Rendering puts a line feed behind every line and behind every copied file.
-/

namespace CanTables.Emit

/-- A line of code with an optional comment. -/
structure Line where
  code : String
  comment : Option String
  deriving DecidableEq, Repr

namespace Line

/-- A line without a comment. -/
def bare (code : String) : Line := ⟨code, none⟩

/-- A line with a comment. -/
def noted (code comment : String) : Line := ⟨code, some comment⟩

/-- A line with nothing on it. -/
def blank : Line := bare ""

/-- The text of a line, given what separates a comment from the code. -/
def render (separator : String → String) (l : Line) : String :=
  match l.comment with
  | none => l.code
  | some comment => l.code ++ separator l.code ++ comment

end Line

/-- A part of an emitted source. -/
inductive Piece where
  | line (l : Line)
  /-- The text of an extra source file. -/
  | copied (text : String)
  deriving DecidableEq, Repr

namespace Piece

/-- Some lines. -/
def lines (ls : List Line) : List Piece := ls.map line

/-- The text of a part. -/
def render (separator : String → String) : Piece → String
  | line l => l.render separator ++ "\n"
  | copied text => text ++ "\n"

end Piece

/-- The text of an emitted source. -/
def render (separator : String → String) (pieces : List Piece) : String :=
  String.join (pieces.map (Piece.render separator))

end CanTables.Emit
