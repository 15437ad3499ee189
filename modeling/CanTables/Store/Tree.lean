/-!
# CanTables.Store.Tree — the files a compilation can see

A `Store` is a finite tree of directories and files with a working directory.  Places in it are
listed from the top directory down (`Location`); a path is a text that names a place, by way of
existing directories only: `a/../b` needs a directory `a`.  Two paths may name one place.

Files hold text, or bytes that are no text.

Three things of a real file system are left out.  There are no symbolic links, so a place has only
the names that lead to it through its directories.  Bringing the path of an existing file to its
place never fails.  And a file that is there can be opened, so one that cannot be read as text is a
file of bytes that are no text.
-/

namespace CanTables

/-- The names on the way from the top directory to a place. -/
abbrev Location := List String

/-- What a file holds. -/
inductive Content where
  | text (s : String)
  /-- Bytes that are not UTF-8. -/
  | binary
  deriving DecidableEq, Repr

/-- What is at a place. -/
inductive Item where
  | directory
  | file (content : Content)
  deriving DecidableEq, Repr

/-- A finite file tree with a working directory. -/
structure Store where
  items : List (Location × Item)
  workingDirectory : Location
  deriving Repr

/-! ## Paths -/

/-- The parts of a path between its slashes, first to last. -/
def splitPath : List Char → List (List Char)
  | [] => [[]]
  | c :: rest =>
    if c = '/' then [] :: splitPath rest
    else
      match splitPath rest with
      | [] => [[c]]
      | part :: parts => (c :: part) :: parts

/-- The names between the slashes of a path; two slashes in a row have an empty name between
them. -/
def pathNames (path : String) : List String := (splitPath path.toList).map String.ofList

/-- A path that starts at the top directory. -/
def isAbsolute (path : String) : Bool := path.toList.head? == some '/'

namespace Store

/-- What is at a place; the top directory is always there. -/
def item? (s : Store) (place : Location) : Option Item :=
  if place = [] then some .directory else (s.items.find? fun entry => entry.1 == place).map (·.2)

/-- A place that is a directory. -/
def isDirectory (s : Store) (place : Location) : Bool := s.item? place == some .directory

/-- The place that a name leads to from a directory. -/
def enter? (s : Store) (place : Location) (name : String) : Option Location :=
  if !s.isDirectory place then none
  else if name = "" ∨ name = "." then some place
  else if name = ".." then some place.dropLast
  else if (s.item? (place ++ [name])).isSome then some (place ++ [name])
  else none

/-- The place that a path names. -/
def locate? (s : Store) (path : String) : Option Location :=
  if path = "" ∨ '\x00' ∈ path.toList then none
  else (pathNames path).foldlM s.enter? (if isAbsolute path then [] else s.workingDirectory)

/-- A file of a store: the path it was found by, its place and what it holds. -/
structure FoundFile (s : Store) where
  path : String
  place : Location
  content : Content
  isFile : s.item? place = some (.file content)

/-- The file that a path names. -/
def file? (s : Store) (path : String) : Option (FoundFile s) :=
  match s.locate? path with
  | none => none
  | some place =>
    match h : s.item? place with
    | some (.file content) => some ⟨path, place, content, h⟩
    | _ => none

/-- The places of a store that are not among those visited. -/
def unvisited (s : Store) (visited : List Location) : List Location :=
  (s.items.map Prod.fst).filter fun place => !visited.contains place

theorem mem_places_of_isFile {s : Store} {place : Location} {content : Content}
    (h : s.item? place = some (.file content)) : place ∈ s.items.map Prod.fst := by
  unfold item? at h
  split at h
  · simp at h
  · cases found : s.items.find? fun entry => entry.1 == place with
    | none => simp [found] at h
    | some entry =>
      have same := List.find?_some found
      have member := List.mem_of_find?_eq_some found
      simp only [beq_iff_eq] at same
      exact List.mem_map.2 ⟨entry, member, same⟩

/-- Visiting one more file leaves fewer places unvisited. -/
theorem unvisited_length_lt {s : Store} {visited : List Location} {place : Location}
    {content : Content} (h : s.item? place = some (.file content)) (new : place ∉ visited) :
    (s.unvisited (place :: visited)).length < (s.unvisited visited).length := by
  have member := mem_places_of_isFile h
  have narrower : s.unvisited (place :: visited) =
      (s.unvisited visited).filter fun other => !(other == place) := by
    simp only [unvisited, List.filter_filter]
    congr 1
    funext other
    by_cases same : other = place <;> simp [same]
  rw [narrower]
  refine List.length_filter_lt_length_iff_exists.2 ⟨place, ?_, by simp⟩
  simp only [unvisited, List.mem_filter]
  exact ⟨member, by simpa using new⟩

/-! ## Writing -/

/-- Why a file could not be written. -/
inductive WriteFault where
  | absent
  | notDirectory
  | isDirectory
  deriving DecidableEq, Repr

/-- What is reported about a file that could not be written. -/
def WriteFault.message : WriteFault → String
  | .absent => "No such file or directory (os error 2)"
  | .notDirectory => "Not a directory (os error 20)"
  | .isDirectory => "Is a directory (os error 21)"

/-- The place that a name leads to, or why it leads nowhere. -/
def follow (s : Store) (place : Location) (name : String) : Except WriteFault Location :=
  match s.enter? place name with
  | some next => .ok next
  | none => .error (if s.isDirectory place then .absent else .notDirectory)

/-- The store after a text was written to a path; the directories on the way must exist. -/
def write (s : Store) (path text : String) : Except WriteFault Store :=
  if path = "" then .error .absent
  else
    let names := (pathNames path).reverse
    let start := if isAbsolute path then [] else s.workingDirectory
    match names.dropWhile (· == "") with
    | [] => .error .isDirectory
    | last :: outer => do
      let directory ← outer.reverse.foldlM s.follow start
      if !s.isDirectory directory then .error .notDirectory
      else if names.head? = some "" ∨ last = "." ∨ last = ".." ∨
          s.isDirectory (directory ++ [last]) then
        .error .isDirectory
      else
        let place := directory ++ [last]
        .ok { s with
          items := (place, .file (.text text)) :: s.items.filter fun entry => entry.1 != place }

end Store

end CanTables
