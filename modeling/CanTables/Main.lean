import CanTables.CommandLine.Invocation

/-!
# CanTables.Main — the command line program

Reads the files that a command line may refer to, runs the command line on them, and carries out
what came of it: the journal goes to standard error, the source to standard output or to its file.

Files are read from the trees below the working directory and below the directories that are
searched, as deep as `maxTreeDepth` levels; links to directories are not followed.
-/

namespace CanTables.Program

/-- How deep directory trees are read. -/
def maxTreeDepth : Nat := 16

/-- How the program is used. -/
def usage : String :=
  "Usage: cantables <--message-sets <MESSAGE_SETS>...|--super-set <SUPER_SET>> [OPTIONS]"

/-- The place of a path that has no detours. -/
def placeOf (path : String) : Location := (pathNames path).filter (· != "")

/-- The places on the way to a place. -/
def outerPlaces (place : Location) : List (Location × Item) :=
  (List.range place.length).map fun count => (place.take count, .directory)

/-- What a file holds. -/
def readContent (path : String) : IO Content := do
  let bytes ← IO.FS.readBinFile path
  match String.fromUTF8? bytes with
  | some text => return .text text
  | none => return .binary

/-- What is at an entry of a directory and below it, that many levels deep.  What cannot be read is
left out, and so are links to directories. -/
def readEntry : Nat → IO.FS.DirEntry → IO (List (Location × Item))
  | 0, _ => return []
  | depth + 1, entry => do
    let path := entry.path.toString
    try
      match (← entry.path.symlinkMetadata).type, (← entry.path.metadata).type with
      | .dir, _ =>
        let inner ← (← entry.path.readDir).toList.mapM (readEntry depth)
        return (placeOf path, .directory) :: inner.flatten
      | _, .file => return [(placeOf path, .file (← readContent path))]
      | _, _ => return []
    catch _ => return []

/-- The tree below a directory, with the directories around it. -/
def readTree (path : String) : IO (List (Location × Item)) := do
  try
    let real ← IO.FS.realPath path
    let place := placeOf real.toString
    let inner ← (← real.readDir).toList.mapM (readEntry maxTreeDepth)
    return inner.flatten ++ (place, .directory) :: outerPlaces place
  catch _ => return []

/-- A single file, with the directories around it. -/
def readFile (path : String) : IO (List (Location × Item)) := do
  try
    let real := placeOf (← IO.FS.realPath path).toString
    return (real, .file (← readContent path)) :: outerPlaces real
  catch _ => return []

/-- The directories among the places on the way to a path that starts at the top directory. -/
def readOuter (path : String) : IO (List (Location × Item)) :=
  (outerPlaces (placeOf path)).filterM fun (outer, _) => do
    try
      let real ← IO.FS.realPath ("/" ++ "/".intercalate outer)
      real.isDir
    catch _ => return false

/-- The names that an invocation starts from. -/
def inputNames : CommandLine.Input → List String
  | .sets names => names
  | .superset name => [name]

/-- The files that an invocation may refer to. -/
def readStore (i : CommandLine.Invocation) : IO Store := do
  let here := (← IO.FS.realPath ".").toString
  let trees ← ("." :: i.directories).mapM readTree
  let files ← ((inputNames i.input).filter isAbsolute).mapM readFile
  let outer ← (i.output.toList.filter isAbsolute).mapM readOuter
  return ⟨trees.flatten ++ files.flatten ++ outer.flatten, placeOf here⟩

/-- Lines of this level are shown. -/
def isShown : Level → Bool
  | .warn | .error => true
  | .debug | .info => false

/-- Runs an invocation on the files of this machine and returns the exit status. -/
def perform (i : CommandLine.Invocation) : IO UInt32 := do
  let report := i.run (← readStore i)
  for entry in report.journal do
    if isShown entry.level then IO.eprintln entry.line
  match i.output, report.status with
  | some path, 0 =>
    match (report.store.file? path).map Store.FoundFile.content with
    | some (.text text) => IO.FS.writeFile path text
    | _ => return 1
  | _, _ => IO.print report.printed
  return .ofNat report.status

end CanTables.Program

/-- Runs the command line. -/
def main (args : List String) : IO UInt32 := do
  match CanTables.CommandLine.Invocation.ofWords? args with
  | some invocation => CanTables.Program.perform invocation
  | none =>
    IO.eprintln CanTables.Program.usage
    return 2
