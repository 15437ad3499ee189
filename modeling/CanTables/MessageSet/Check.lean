import CanTables.Journal
import CanTables.MessageSet.Derived

/-!
# CanTables.MessageSet.Check — is a message set fit for code generation?

Two things make a set unfit: it has no name, or a signal of a message on a valid bus lacks its
position or its size.  Messages without a usable bus and signals with a doubtful combination of
attributes are only reported.

What is found is a list of findings; whether the set is fit and what is reported both follow from
that list.
-/

namespace CanTables

open Text

/-- Something about a message set that deserves attention. -/
inductive Finding where
  /-- The set has no name. -/
  | unnamed
  /-- A message has no bus. -/
  | noBus (id : UInt32)
  /-- The bus of a message is not in the set. -/
  | undefinedBus (id : UInt32) (bus : String)
  /-- The bus of a message is not attached to a controller. -/
  | invalidBus (id : UInt32) (bus : String) (controller : Option UInt8)
  /-- A signal is limited in rate and also filtered for changes. -/
  | doubtful (id : UInt32) (genericName : String)
  /-- A signal lacks its position or its size. -/
  | incomplete (id : UInt32) (name genericName : String)
  deriving DecidableEq, Repr

namespace Finding

/-- A set with this finding must not be compiled. -/
def isFatal : Finding → Bool
  | unnamed | incomplete .. => true
  | _ => false

/-- How reports show the controller of a bus. -/
def controllerText : Option UInt8 → String
  | none => "None"
  | some address => "Some(" ++ toString address.toNat ++ ")"

/-- How reports show the list of controllers. -/
def controllersText : String :=
  "[" ++ ", ".intercalate (controllerAddresses.map fun address => toString address.toNat) ++ "]"

/-- The journal line of a finding in a set with the given name. -/
def entry (set : String) : Finding → Entry
  | unnamed => ⟨.warn, "Message set is missing a name"⟩
  | noBus id =>
    (Origin.ofMessage set id).entry .warn
      "No default or explicit bus for message, it will be disabled"
  | undefinedBus id bus =>
    (Origin.ofMessage set id).entry .warn
      ("Bus '" ++ bus ++ "' is not defined, message will be disabled")
  | invalidBus id bus controller =>
    (Origin.ofMessage set id).entry .warn
      ("Bus '" ++ bus ++ "' has controller " ++ controllerText controller ++ ", only " ++
        controllersText ++ " are allowed - message will be disabled")
  | doubtful id genericName =>
    (Origin.ofMessage set id).entry .warn
      ("Signal " ++ genericName ++
        " combines send_same=false and max_frequency - this is not recommended")
  | incomplete id name genericName =>
    (Origin.ofMessage set id).entry .warn
      (name ++ " (generic name: " ++ genericName ++
        ") is incomplete, bit_position and bit_size are required")

end Finding

namespace MessageSet

/-- What is found about the bus of a message. -/
def busFindings (s : MessageSet) (m : Message) : List Finding :=
  match m.busName, m.bus with
  | none, _ => [.noBus m.id]
  | some name, none => [.undefinedBus m.id name]
  | some name, some r =>
    if s.busValid r then [] else [.invalidBus m.id name ((s.bus? r).bind Bus.controller)]

/-- What is found about a signal. -/
def signalFindings (s : MessageSet) (x : Signal) : List Finding :=
  let id := ((s.message? x.message).map Message.id).getD 0
  (if !x.sendSame && !(s.signalMaxFrequency x).isZero then [.doubtful id x.genericName] else []) ++
    (if x.bitPosition.isNone || x.bitSize.isNone then [.incomplete id x.name x.genericName]
      else [])

/-- What is found about the name of a set. -/
def nameFindings (s : MessageSet) : List Finding := if s.name = "" then [.unnamed] else []

/-- What is found about the messages of a set: their buses first, then the signals on valid
buses. -/
def messageFindings (s : MessageSet) : List Finding :=
  s.messages.flatMap s.busFindings ++ s.allSignals.flatMap fun (_, x) => s.signalFindings x

/-- Nothing fatal among some findings. -/
def acceptable (findings : List Finding) : Bool := findings.all fun finding => !finding.isFatal

/-- Everything that is found about a set; the messages of a set without a name are not looked
at. -/
def findings (s : MessageSet) : List Finding :=
  if acceptable s.nameFindings then s.messageFindings else s.nameFindings

/-- The set is fit for code generation. -/
def isFit (s : MessageSet) : Bool := acceptable s.findings

/-- The journal lines of some findings. -/
def entries (s : MessageSet) (findings : List Finding) : List Entry :=
  findings.map (Finding.entry s.name)

/-- Reports what is found and says whether the set is fit. -/
def check (s : MessageSet) : Run Bool := do
  Run.write (s.entries s.findings)
  return s.isFit

end MessageSet

end CanTables
