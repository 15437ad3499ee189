import CanTables.Schema.Layer

/-!
# CanTables.Declaration.Signal — one layer of a signal as written

Every attribute of a signal may come from a different layer.  Enumerated states are one attribute:
a layer with states replaces those of the layers below as a whole.
-/

namespace CanTables.Declaration

open Numeric Schema

/-- The attributes of a signal layer. -/
inductive SignalAttribute where
  | genericName
  | bitPosition
  | bitSize
  | factor
  | offset
  | minValue
  | maxValue
  | enabled
  | ignore
  /-- The name of each state with the raw values that map onto it. -/
  | states
  | maxFrequency
  | sendSame
  | forceSendChanged
  | writable
  | decoder
  | encoder
  | bitNumberingInverted
  deriving DecidableEq, Repr

instance : Record SignalAttribute where
  attributes :=
    [.genericName, .bitPosition, .bitSize, .factor, .offset, .minValue, .maxValue, .enabled,
      .ignore, .states, .maxFrequency, .sendSame, .forceSendChanged, .writable, .decoder, .encoder,
      .bitNumberingInverted]
  key
    | .genericName => "generic_name"
    | .bitPosition => "bit_position"
    | .bitSize => "bit_size"
    | .factor => "factor"
    | .offset => "offset"
    | .minValue => "min_value"
    | .maxValue => "max_value"
    | .enabled => "enabled"
    | .ignore => "ignore"
    | .states => "states"
    | .maxFrequency => "max_frequency"
    | .sendSame => "send_same"
    | .forceSendChanged => "force_send_changed"
    | .writable => "writable"
    | .decoder => "decoder"
    | .encoder => "encoder"
    | .bitNumberingInverted => "bit_numbering_inverted"
  Carrier
    | .genericName | .decoder | .encoder => String
    | .bitPosition | .bitSize => UInt32
    | .factor | .offset | .minValue | .maxValue => Double
    | .enabled | .ignore | .sendSame | .forceSendChanged | .writable | .bitNumberingInverted => Bool
    | .states => Keyed String (List Int)
    | .maxFrequency => Single
  read
    | .genericName | .decoder | .encoder => Reader.text
    | .bitPosition | .bitSize => Reader.word32
    | .factor | .offset | .minValue | .maxValue => Reader.double
    | .enabled | .ignore | .sendSame | .forceSendChanged | .writable | .bitNumberingInverted =>
      Reader.flag
    | .states => Reader.map (Reader.list Reader.signed64)
    | .maxFrequency => Reader.single
  nullable _ := true
  required _ := false

/-- One layer of a signal. -/
abbrev SignalLayer := Layer SignalAttribute

end CanTables.Declaration
