/-!
# CanTables.Settings — choices of a compilation

The language of the emitted source, and what becomes of mappings that are disabled.
-/

namespace CanTables

/-- The language of the emitted source. -/
inductive Target where
  | cpp
  | python
  deriving DecidableEq, Repr

namespace Target

/-- The name of a target. -/
def name : Target → String
  | cpp => "cpp"
  | python => "python"

/-- The version of the emitted tables that a target stands for. -/
def version : Target → String
  | cpp => "5.x"
  | python => "1.0"

/-- The names that a target may be asked for by. -/
def aliases : Target → List String
  | cpp => ["cpp", "c++"]
  | python => ["python", "py"]

/-- The same name in lower case, as far as ASCII letters go. -/
def foldCase (name : String) : String := String.ofList (name.toList.map Char.toLower)

/-- The target with a name, in any case. -/
def ofName? (name : String) : Option Target :=
  [cpp, python].find? fun target => target.aliases.contains (foldCase name)

/-- What is reported about a name that no target has. -/
def unknownMessage (name : String) : String :=
  "unknown backend '" ++ foldCase name ++ "' (expected cpp or python)"

end Target

/-- The choices of a compilation. -/
structure Settings where
  target : Target
  /-- Disabled mappings are left out altogether instead of loaded disabled. -/
  skipDisabledMappings : Bool
  deriving DecidableEq, Repr

/-- The choices that hold unless others are made. -/
def Settings.usual : Settings := ⟨.cpp, true⟩

end CanTables
