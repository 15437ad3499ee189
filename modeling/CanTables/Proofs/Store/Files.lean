import CanTables.Store.Catalog

/-!
# CanTables.Proofs.Store.Files — catalogs given by texts

A catalog of a few files in one directory, and the texts of objects in them.  What the general
theorems say of every catalog can be evaluated on these.
-/

namespace CanTables

namespace Catalog

/-- The catalog of files in one directory, given by their names and texts. -/
def ofFiles (files : List (String × String)) : Catalog where
  store := ⟨files.map fun (name, text) => ([name], .file (.text text)), []⟩
  directories := usualDirectories

/-- The text of an object, its fields given by their keys and texts. -/
def objectText (fields : List (String × String)) : String :=
  "\x7b" ++ ", ".intercalate (fields.map fun (key, text) => "\"" ++ key ++ "\": " ++ text) ++ "\x7d"

end Catalog

end CanTables
