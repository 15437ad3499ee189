import CanTables.CommandLine.Option
import CanTables.Compile

/-!
# CanTables.CommandLine.Invocation — what a command line asks for

An `Invocation` says what to compile, where to look for files, and where the source goes.  Running
one on a file tree yields a report: the exit status, what is printed, the journal, and the tree
after the source was written.
-/

namespace CanTables.CommandLine

/-- What is compiled. -/
inductive Input where
  | sets (names : List String)
  | superset (name : String)
  deriving DecidableEq, Repr

/-- What a command line asks for. -/
structure Invocation where
  input : Input
  directories : List String
  settings : Settings
  /-- The file that the source is written to; otherwise it is printed. -/
  output : Option String
  deriving DecidableEq, Repr

namespace Invocation

/-! ## Reading a command line -/

/-- The values of all occurrences of an option. -/
def valuesOf (flag : Flag) (occurrences : List Occurrence) : List String :=
  (occurrences.filter (·.flag == flag)).flatMap (·.values)

/-- An option occurs at most once. -/
def atMostOnce (flag : Flag) (occurrences : List Occurrence) : Bool :=
  (occurrences.filter (·.flag == flag)).length ≤ 1

/-- The options that must not be repeated. -/
def singular : List Flag := [.superset, .target, .output, .keepDisabledMappings]

/-- What is compiled: message sets or a superset, not both. -/
def input? (occurrences : List Occurrence) : Option Input :=
  match valuesOf .messageSets occurrences, valuesOf .superset occurrences with
  | [], [name] => some (.superset name)
  | name :: names, [] => some (.sets (name :: names))
  | _, _ => none

/-- The target that is asked for, or the usual one. -/
def target? (occurrences : List Occurrence) : Option Target :=
  match valuesOf .target occurrences with
  | [] => some Settings.usual.target
  | name :: _ => Target.ofName? name

/-- What a command line asks for.  Paths must not be empty. -/
def ofWords? (words : List String) : Option Invocation := do
  let occurrences ← occurrences? words
  let input ← input? occurrences
  let target ← target? occurrences
  let directories := valuesOf .searchPaths occurrences
  let outputs := valuesOf .output occurrences
  let keep := occurrences.any (·.flag == .keepDisabledMappings)
  guard (singular.all fun flag => atMostOnce flag occurrences)
  guard ((directories ++ outputs).all (· != ""))
  return {
    input
    directories := if directories.isEmpty then Catalog.usualDirectories else directories
    settings := ⟨target, !keep⟩
    output := outputs.head? }

/-! ## Running -/

/-- What came of a command line. -/
structure Report where
  status : Nat
  printed : String
  journal : List Entry
  store : Store

/-- The source that an invocation asks for. -/
def compile (i : Invocation) (store : Store) : Run Generated :=
  let catalog : Catalog := ⟨store, i.directories⟩
  match i.input with
  | .sets names => catalog.compile i.settings names
  | .superset name => catalog.compileSuperset i.settings name

/-- The journal line about what was left out, if anything was. -/
def skippedEntries (t : Tally) : List Entry :=
  if t.skippedMessages + t.skippedSignals + t.skippedCommands = 0 then []
  else
    [⟨.warn, "Skipped " ++ toString t.skippedMessages ++ " message(s), " ++
      toString t.skippedSignals ++ " signal(s), " ++ toString t.skippedCommands ++
      " command(s)"⟩]

/-- Prints a source or writes it to a file. -/
def deliver (i : Invocation) (store : Store) (journal : List Entry) (source : String) : Report :=
  match i.output with
  | none => ⟨0, source, journal, store⟩
  | some path =>
    match store.write path source with
    | .ok written => ⟨0, "", journal ++ [⟨.info, "Wrote " ++ path⟩], written⟩
    | .error fault => ⟨1, "", journal ++ [⟨.error, fault.message⟩], store⟩

/-- Runs an invocation on a file tree. -/
def run (i : Invocation) (store : Store) : Report :=
  let compiled := i.compile store
  match compiled.outcome with
  | .error fault => ⟨1, "", compiled.journal ++ [⟨.error, fault.message⟩], store⟩
  | .ok generated =>
    i.deliver store (compiled.journal ++ skippedEntries generated.tally) generated.source

end Invocation

/-- Runs a command line on a file tree; one that asks for nothing sensible has status two. -/
def run (words : List String) (store : Store) : Invocation.Report :=
  match Invocation.ofWords? words with
  | some invocation => invocation.run store
  | none => ⟨2, "", [], store⟩

end CanTables.CommandLine
