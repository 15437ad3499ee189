import CanTables.Document.Reader
import CanTables.Journal
import CanTables.Store.Tree

/-!
# CanTables.Store.Catalog — finding files by name

Configuration files refer to each other by name.  An absolute name is a path; any other name is
tried behind each search directory in order, and the first file found is taken.  The path under
which a file was found is the search directory joined with the name, nothing simplified.
-/

namespace CanTables

open Document

/-- A store with the directories that names are looked up in. -/
structure Catalog where
  store : Store
  directories : List String

/-- A directory's path joined with a name. -/
def joinPath (directory name : String) : String :=
  if directory = "" then name
  else if directory.toList.getLast? = some '/' then directory ++ name
  else directory ++ "/" ++ name

namespace Catalog

/-- The directories that names are looked up in unless others are given: the working directory. -/
def usualDirectories : List String := ["."]

/-- The paths that a name may stand for, in the order in which they are tried. -/
def candidates (c : Catalog) (name : String) : List String :=
  if isAbsolute name then [name] else c.directories.map (joinPath · name)

/-- The file that a name stands for. -/
def find (c : Catalog) (name : String) : Except Fault (Store.FoundFile c.store) :=
  match (c.candidates name).findSome? c.store.file? with
  | some found => .ok found
  | none => .error (.notFound name c.directories)

/-- The text of a file. -/
def textOf {s : Store} (found : Store.FoundFile s) : Except Fault String :=
  match found.content with
  | .text text => .ok text
  | .binary => .error (.unreadable found.path .notUtf8)

/-- The configuration value that a file holds. -/
def valueOf {s : Store} (found : Store.FoundFile s) : Except Fault Value := do
  let text ← textOf found
  match Value.ofText? maxDepth text with
  | some value => .ok value
  | none => .error (.notJson found.path)

/-- The text of the file that a name stands for. -/
def readText (c : Catalog) (name : String) : Except Fault String := do textOf (← c.find name)

/-- The file that a name stands for, with the configuration value that it holds. -/
def readValue (c : Catalog) (name : String) :
    Except Fault (Store.FoundFile c.store × Value) := do
  let found ← c.find name
  return (found, ← valueOf found)

/-- The text at a path, whether or not a search directory leads there. -/
def textAt (c : Catalog) (path : String) : Except Fault String :=
  match c.store.file? path with
  | some found => textOf found
  | none => .error (.unreadable path .absent)

end Catalog

/-- The typed data that a value holds, its faults reported under a subject. -/
def readRecord {α : Type} (reader : Schema.Reader α) (subject : String) (v : Value) :
    Except Fault α :=
  match reader v with
  | .ok record => .ok record
  | .error cause => .error (.malformed subject cause)

end CanTables
