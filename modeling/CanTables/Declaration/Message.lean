import CanTables.Schema.Layer

/-!
# CanTables.Declaration.Message — one layer of a message as written

A message may be described by several layers: parents, mappings, a database, and the message set
file itself.  Later layers win attribute by attribute, except that signals are merged one by one
and never as a whole.
-/

namespace CanTables.Declaration

open Numeric Schema

/-- The attributes of a message layer. -/
inductive MessageAttribute where
  | bus
  | name
  | enabled
  | bitNumberingInverted
  | handlers
  | maxFrequency
  | maxSignalFrequency
  | forceSendChanged
  | forceSendChangedSignals
  | signals
  deriving DecidableEq, Repr

instance : Record MessageAttribute where
  attributes :=
    [.bus, .name, .enabled, .bitNumberingInverted, .handlers, .maxFrequency, .maxSignalFrequency,
      .forceSendChanged, .forceSendChangedSignals, .signals]
  key
    | .bus => "bus"
    | .name => "name"
    | .enabled => "enabled"
    | .bitNumberingInverted => "bit_numbering_inverted"
    | .handlers => "handlers"
    | .maxFrequency => "max_frequency"
    | .maxSignalFrequency => "max_signal_frequency"
    | .forceSendChanged => "force_send_changed"
    | .forceSendChangedSignals => "force_send_changed_signals"
    | .signals => "signals"
  Carrier
    | .bus => String
    | .name => String
    | .enabled => Bool
    | .bitNumberingInverted => Bool
    | .handlers => List String
    | .maxFrequency => Single
    | .maxSignalFrequency => Single
    | .forceSendChanged => Bool
    | .forceSendChangedSignals => Bool
    | .signals => Document.Fields
  read
    | .bus => Reader.text
    | .name => Reader.text
    | .enabled => Reader.flag
    | .bitNumberingInverted => Reader.flag
    | .handlers => Reader.list Reader.text
    | .maxFrequency => Reader.single
    | .maxSignalFrequency => Reader.single
    | .forceSendChanged => Reader.flag
    | .forceSendChangedSignals => Reader.flag
    | .signals => Reader.object
  nullable
    | .signals => false
    | _ => true
  required _ := false

/-- One layer of a message. -/
abbrev MessageLayer := Layer MessageAttribute

/-- Puts a message layer on top of another; the raw signals of the lower one stay. -/
def MessageLayer.overlay (below above : MessageLayer) : MessageLayer
  | .signals => below .signals
  | a => Layer.overlay below above a

end CanTables.Declaration
