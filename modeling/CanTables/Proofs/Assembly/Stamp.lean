import CanTables.Proofs.Assembly.Statement
import CanTables.Proofs.Document.Ordered

/-!
# CanTables.Proofs.Assembly.Stamp — what a reference stamps on the objects of its mapping

A reference stamps its bus, if it gives one, and its flag on every message object of its mapping
that has no such key.  It goes by keys: a key with null under it is there, so nothing is stamped.
-/

namespace CanTables

open Declaration Document Schema

/-- What an object says about an attribute. -/
theorem Call.attributes_object {key : String} {fields : Fields} {a : MessageAttribute}
    (ha : a ≠ .signals) : Call.attributes (key, .object fields) a =
      (fields.get? (Record.key a)).bind fun v => (Layer.readAttribute a v).toOption.join := by
  have hkey : Record.key a ≠ "signals" := by
    cases a <;> first | exact absurd rfl ha | decide
  rw [attributes, Layer.ofFields]
  show (Keyed.get? (Keyed.erase fields "signals") (Record.key a)).bind _ = _
  rw [Keyed.get?_erase, if_neg hkey]

namespace Declaration.MappingReference

variable {r : MappingReference}

/-- What the reference stamps under a key. -/
def stamped (r : MappingReference) (key : String) : Option Value :=
  if key = "bus" then r.bus.map .text
  else if key = "enabled" then some (.bool r.enabled)
  else none

/-- The fields of an object once it is stamped. -/
def stampFields (r : MappingReference) (fields : Fields) : Fields :=
  ((r.stamp (.object fields)).fields?).getD []

theorem stamp_object (r : MappingReference) (fields : Fields) :
    r.stamp (.object fields) = .object (r.stampFields fields) := rfl

theorem stampFields_ordered (r : MappingReference) (m : OrderedObject) :
    (Value.object (r.stampFields m)).Ordered := by
  unfold stampFields stamp
  cases r.bus with
  | none => exact (m.insertIfNew "enabled" ⟨.bool r.enabled, trivial⟩).ordered
  | some bus =>
    exact ((m.insertIfNew "bus" ⟨.text bus, trivial⟩).insertIfNew "enabled"
      ⟨.bool r.enabled, trivial⟩).ordered

/-- An object once it is stamped. -/
abbrev stampObject (r : MappingReference) (m : OrderedObject) : OrderedObject :=
  ⟨r.stampFields m, r.stampFields_ordered m⟩

/-- Under each key an object keeps what it has; what is stamped only fills in. -/
theorem get?_stampFields (m : OrderedKeyed String Value) (key : String) :
    (r.stampFields m).get? key = (m.entries.get? key).or (r.stamped key) := by
  unfold stampFields stamp stamped
  cases r.bus with
  | none =>
    show (m.entries.insertIfNew "enabled" (.bool r.enabled)).get? key = _
    rw [m.ordered.get?_insertIfNew]
    by_cases hbus : key = "bus"
    · subst hbus
      rfl
    · rw [if_neg hbus]
  | some bus =>
    let below := m.insertIfNew "bus" (.text bus)
    show (below.entries.insertIfNew "enabled" (.bool r.enabled)).get? key = _
    rw [below.ordered.get?_insertIfNew, m.ordered.get?_insertIfNew, Option.or_assoc]
    by_cases hbus : key = "bus"
    · subst hbus
      rfl
    · rw [if_neg hbus, if_neg hbus, Option.none_or]

/-! ## What a stamped object says -/

variable {a : MessageAttribute}

/-- What a reference says about a message that does not have the attribute. -/
def defaults (r : MappingReference) : MessageLayer
  | .bus => r.bus
  | .enabled => some r.enabled
  | _ => none

theorem readAttribute_stamped : ((r.stamped (Record.key a)).bind fun v =>
    (Layer.readAttribute a v).toOption.join) = r.defaults a := by
  obtain ⟨mapping, bus, enabled, database⟩ := r
  cases a <;> cases bus <;> rfl

theorem stamped_eq_none_iff : r.stamped (Record.key a) = none ↔ r.defaults a = none := by
  obtain ⟨mapping, bus, enabled, database⟩ := r
  cases a <;> cases bus <;> simp [stamped, defaults, Record.key]

/-- An object says what it has under the key of an attribute, be it null, and else what is
stamped. -/
theorem attributes_stamp (m : OrderedKeyed String Value) (key : String) (ha : a ≠ .signals) :
    Call.attributes (key, r.stamp (.object m)) a =
      ((m.entries.get? (Record.key a)).map fun v =>
        (Layer.readAttribute a v).toOption.join).getD (r.defaults a) := by
  rw [stamp_object, Call.attributes_object ha, get?_stampFields]
  cases m.entries.get? (Record.key a) with
  | none =>
    rw [Option.none_or]
    exact readAttribute_stamped
  | some v => rfl

end Declaration.MappingReference

end CanTables
