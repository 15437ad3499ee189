/-!
# CanTables.CommandLine.Option — options of the command line

A command line is a list of words.  A word is an option, perhaps with a value attached to it, the
mark `--` behind which there are no options, or a value.  Values follow the option that they belong
to, up to the next option.

`occurrences?` groups the words by option and refuses a command line in which an option has the
wrong number of values or a value belongs to no option.
-/

namespace CanTables.CommandLine

/-- An option. -/
inductive Flag where
  | messageSets
  | superset
  | searchPaths
  | target
  | output
  | keepDisabledMappings
  deriving DecidableEq, Repr

namespace Flag

/-- All options. -/
def all : List Flag :=
  [messageSets, superset, searchPaths, target, output, keepDisabledMappings]

/-- The long name of an option. -/
def long : Flag → String
  | messageSets => "message-sets"
  | superset => "super-set"
  | searchPaths => "search-paths"
  | target => "backend"
  | output => "output"
  | keepDisabledMappings => "keep-disabled-mappings"

/-- The letter that stands for an option. -/
def short? : Flag → Option Char
  | messageSets => some 'm'
  | searchPaths => some 's'
  | target => some 'b'
  | output => some 'o'
  | superset | keepDisabledMappings => none

/-- An option takes a number of values. -/
def takes : Flag → Nat → Bool
  | messageSets, count | searchPaths, count => 0 < count
  | superset, count | target, count | output, count => count == 1
  | keepDisabledMappings, count => count == 0

/-- The option with a long name. -/
def ofLong? (name : String) : Option Flag := all.find? (·.long == name)

/-- The option with a letter. -/
def ofShort? (letter : Char) : Option Flag := all.find? (·.short? == some letter)

end Flag

/-! ## Words -/

/-- What a word of a command line is. -/
inductive Word where
  | value (text : String)
  /-- Behind it there are no options. -/
  | stop
  | option (flag : Flag) (attached : Option String)
  /-- A word that looks like an option and is none. -/
  | unknown
  deriving DecidableEq, Repr

namespace Word

/-- A long option, perhaps with a value behind an equals sign. -/
def ofLong (chars : List Char) : Word :=
  let name := chars.takeWhile (· != '=')
  let attached := (chars.drop name.length).tail?.map String.ofList
  match Flag.ofLong? (String.ofList name) with
  | some flag => option flag attached
  | none => unknown

/-- A short option, perhaps with a value right behind the letter or behind an equals sign. -/
def ofShort (letter : Char) (rest : List Char) : Word :=
  let attached :=
    match rest with
    | [] => none
    | '=' :: chars => some (String.ofList chars)
    | chars => some (String.ofList chars)
  match Flag.ofShort? letter with
  | some flag => option flag attached
  | none => unknown

/-- What a word is; a lone dash is a value. -/
def ofText (text : String) : Word :=
  match text.toList with
  | ['-', '-'] => stop
  | '-' :: '-' :: rest => ofLong rest
  | '-' :: letter :: rest => ofShort letter rest
  | _ => value text

end Word

/-! ## Grouping -/

/-- An option with its values. -/
structure Occurrence where
  flag : Flag
  values : List String
  deriving DecidableEq, Repr

/-- Words grouped by option, and the values in front of the first option. -/
structure Grouping where
  loose : List String
  occurrences : List Occurrence
  deriving DecidableEq, Repr

namespace Grouping

/-- Puts an option in front, which takes the loose values unless it has a value attached. -/
def cons? (flag : Flag) (attached : Option String) (g : Grouping) : Option Grouping :=
  let values := attached.elim g.loose fun value => value :: g.loose
  if flag.takes values.length && !(attached.isSome && !g.loose.isEmpty) then
    some ⟨[], ⟨flag, values⟩ :: g.occurrences⟩
  else none

/-- Groups words; nothing may stand behind the mark `--`. -/
def ofWords? : List Word → Option Grouping
  | [] => some ⟨[], []⟩
  | .value text :: rest =>
    (ofWords? rest).map fun g => { g with loose := text :: g.loose }
  | .option flag attached :: rest => (ofWords? rest).bind (cons? flag attached)
  | .stop :: rest => if rest.isEmpty then some ⟨[], []⟩ else none
  | .unknown :: _ => none

end Grouping

/-- The options of a command line, each with its values. -/
def occurrences? (words : List String) : Option (List Occurrence) :=
  match Grouping.ofWords? (words.map Word.ofText) with
  | some ⟨[], occurrences⟩ => some occurrences
  | _ => none

end CanTables.CommandLine
