import CanTables.Document.Overlay
import CanTables.Store.Catalog

/-!
# CanTables.Assembly.Lineage — a file with its ancestors

A message set file may name parents, which may name parents in turn.  `Catalog.lineage` follows
these references and yields the tree of all files reached, each without its list of parents;
`Lineage.merged` lays the files over each other.  A child lies over its parents and an earlier
parent over a later one.

Following references ends because a file may not be its own ancestor: every step down a branch
leaves fewer places of the store that are not on the branch.  A file reached along two branches is
no fault; it then occurs twice in the tree.
-/

namespace CanTables

open Document

/-- A configuration file without its list of parents, and the lineages of its parents. -/
inductive Lineage where
  | node (path : String) (own : Value) (parents : List Lineage)

namespace Lineage

/-- The path under which the file was found. -/
def path : Lineage → String
  | node path _ _ => path

mutual

/-- The value that the files of a lineage make up together. -/
def merged : Lineage → Value
  | node _ own parents => mergedOver own parents

/-- The value that a file makes up with the lineages of its parents underneath, the first parent
first. -/
def mergedOver (own : Value) : List Lineage → Value
  | [] => own
  | parent :: rest => mergedOver (Value.overlay (merged parent) own) rest

end

mutual

/-- The files of a lineage: a child before its parents, the parents from first to last. -/
def files : Lineage → List Value
  | node _ own parents => own :: filesOfAll parents

/-- The files of several lineages, one lineage after the other. -/
def filesOfAll : List Lineage → List Value
  | [] => []
  | lineage :: rest => files lineage ++ filesOfAll rest

end

end Lineage

/-- The key of a file's list of parents. -/
def parentsKey : String := "parents"

/-- The names of a file's parents. -/
def parentNames (path : String) (v : Value) : Except Fault (List String) :=
  match v.field? parentsKey with
  | none => .ok []
  | some names =>
    readRecord (Schema.Reader.list Schema.Reader.text) ("'parents' list in " ++ path) names

namespace Catalog

/-- The lineage of a file, given the places of the files it was reached through. -/
def lineageBelow (c : Catalog) (branch : List Location) (name : String) : Run Lineage := do
  let (found, value) ← Run.lift (c.readValue name)
  if _new : found.place ∈ branch then
    Run.fail (.ancestryLoop found.path)
  else
    let names ← Run.lift (parentNames found.path value)
    let parents ← names.mapM fun parent => do
      Run.note .debug ("Merging parent " ++ parent ++ " under " ++ found.path)
      c.lineageBelow (found.place :: branch) parent
    return .node found.path (value.eraseField parentsKey) parents
termination_by (c.store.unvisited branch).length
decreasing_by exact Store.unvisited_length_lt found.isFile _new

/-- The lineage of the file that a name stands for. -/
def lineage (c : Catalog) (name : String) : Run Lineage := c.lineageBelow [] name

end Catalog

end CanTables
