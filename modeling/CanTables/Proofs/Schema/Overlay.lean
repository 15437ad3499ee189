import CanTables.Declaration.Message
import CanTables.Declaration.Signal
import CanTables.Proofs.Document.Overlay
import CanTables.Proofs.Schema.Layer

/-!
# CanTables.Proofs.Schema.Overlay — reading commutes with layering

Two objects may be merged and read as one record, or read and the two layers stacked.  A record that
is read from an object knows nothing of how the object came about, so both ways agree as long as
merging replaces values (`Layer.read_overlay`).  They differ where values merge in depth, as arrays
and objects do, and where the upper object says null, which hides the value below from the merged
object but supplies nothing to a layer.

Most attributes are read from plain values only, which always replace: all attributes of a message
but its handlers and signals, and all attributes of a signal but its states.
-/

namespace CanTables.Schema

open Document Value Declaration

/-! ## Plain values -/

/-- The reader accepts plain values only. -/
def Reader.Plain {α : Type} (reader : Reader α) : Prop := ∀ v x, reader v = .ok x → v.IsPlain

theorem Reader.plain_of_refuses {α : Type} {reader : Reader α}
    (array : ∀ items, reader (.array items) = .error .wrongKind)
    (object : ∀ fields, reader (.object fields) = .error .wrongKind) : reader.Plain := by
  intro v x h
  cases v with
  | array items => cases (array items).symm.trans h
  | object fields => cases (object fields).symm.trans h
  | _ => trivial

theorem messageAttribute_plain {a : MessageAttribute} (handlers : a ≠ .handlers)
    (signals : a ≠ .signals) : Reader.Plain (Record.read a) :=
  Reader.plain_of_refuses (fun _ => by cases a <;> first | rfl | contradiction)
    (fun _ => by cases a <;> first | rfl | contradiction)

theorem signalAttribute_plain {a : SignalAttribute} (states : a ≠ .states) :
    Reader.Plain (Record.read a) :=
  Reader.plain_of_refuses (fun _ => by cases a <;> rfl)
    (fun _ => by cases a <;> first | rfl | contradiction)

theorem overlayEntry_null (above : Value) : overlayEntry .null above = above := by
  cases above <;> rfl

namespace Layer

variable {A : Type} [Record A]

/-! ## Fields of a record -/

theorem overlay_empty (above : Layer A) : overlay empty above = above := by
  funext a
  exact Option.or_none

instance : Std.Associative (overlay (A := A)) where
  assoc _ _ _ := funext fun _ => Option.or_assoc.symm

theorem key_of_attribute? {key : String} {a : A} (h : attribute? key = some a) :
    Record.key a = key := by
  have hkey := List.find?_some h
  exact beq_iff_eq.mp hkey

/-- A field that fits and is not null supplies the attribute with its key. -/
theorem exists_of_checkField {field : String × Value} (h : checkField A field = .ok ())
    (speaks : field.2 ≠ .null) :
    ∃ (a : A) (x : Record.Carrier a), attribute? field.1 = some a ∧
      readAttribute a field.2 = .ok (some x) ∧ Record.read a field.2 = .ok x := by
  unfold checkField at h
  split at h
  · cases h
  · next a ha =>
    obtain ⟨o, ho, -⟩ := Except.map_eq_ok_iff.mp h
    have hvalue : readAttribute a field.2 = (Record.read a field.2).map some := by
      unfold readAttribute
      split
      · next hnull => exact absurd hnull speaks
      · rfl
    obtain ⟨x, hx, -⟩ := Except.map_eq_ok_iff.mp (hvalue.symm.trans ho)
    exact ⟨a, x, ha, by rw [hvalue, hx]; rfl, hx⟩

theorem mem_knownKeys_of_read {fields : Fields} {layer : Layer A}
    (h : read (.object fields) = .ok layer) {field : String × Value} (hmem : field ∈ fields) :
    field.1 ∈ knownKeys A := by
  have hcheck := (read_object_eq_ok_iff.mp h).1 field hmem
  unfold checkField at hcheck
  split at hcheck
  · cases hcheck
  · next a ha =>
    exact List.mem_map.mpr ⟨a, List.mem_of_find?_eq_some ha, key_of_attribute? ha⟩

theorem checkComplete_eq_ok_iff {fields : Fields} : checkComplete A fields = .ok () ↔
    ∀ a ∈ Record.attributes (A := A), Record.required a → (fields.get? (Record.key a)).isSome := by
  unfold checkComplete
  split
  · next hnone =>
    refine iff_of_true rfl fun a ha hrequired => ?_
    have := List.find?_eq_none.mp hnone a ha
    rw [hrequired, Bool.true_and, Bool.not_eq_true, Bool.not_eq_false'] at this
    exact this
  · next a ha =>
    refine iff_of_false (fun h => by cases h) fun hall => ?_
    have := List.find?_some ha
    rw [Bool.and_eq_true, Bool.not_eq_true'] at this
    have hpresent := hall a (List.mem_of_find?_eq_some ha) this.1
    exact Bool.false_ne_true (this.2.symm.trans hpresent)

/-! ## Two objects -/

/-- Where merging replaces values and the upper object says no null, reading two merged objects is
stacking the layers read from each. -/
theorem read_overlay (keys : ∀ a : A, attribute? (Record.key a) = some a)
    (lower upper : OrderedObject) (speaks : ∀ key, upper.fields.get? key ≠ some .null)
    (replaces : ∀ (a : A) v w x, lower.fields.get? (Record.key a) = some v →
      upper.fields.get? (Record.key a) = some w → Record.read a w = .ok x → w.IsPlain ∨ v = .null)
    {below above : Layer A} (hbelow : read (.object lower) = .ok below)
    (habove : read (.object upper) = .ok above) :
    read (.object (overlayFields lower upper)) = .ok (overlay below above) := by
  obtain ⟨hfits, hcomplete, rfl⟩ := read_object_eq_ok_iff.mp hbelow
  obtain ⟨hfits', hcomplete', rfl⟩ := read_object_eq_ok_iff.mp habove
  have hsupplies : ∀ key w, upper.fields.get? key = some w → ∃ (a : A) (x : Record.Carrier a),
      attribute? key = some a ∧ readAttribute a w = .ok (some x) ∧ Record.read a w = .ok x := by
    intro key w hw
    refine exists_of_checkField (hfits' _ (Keyed.mem_of_get?_eq_some hw)) ?_
    rintro rfl
    exact speaks key hw
  -- Under every key stands what the upper object has there, or else the lower one.
  have hget : ∀ key, Keyed.get? (overlayFields lower upper) key =
      (upper.fields.get? key).or (lower.fields.get? key) := by
    intro key
    rw [get?_overlayFields]
    cases hw : upper.fields.get? key with
    | none => rw [Option.merge_none_right, Option.none_or]
    | some w =>
      cases hv : lower.fields.get? key with
      | none => rfl
      | some v =>
        obtain ⟨a, x, ha, -, hx⟩ := hsupplies key w hw
        obtain rfl := key_of_attribute? ha
        rw [Option.merge_some_some, Option.some_or, Option.some.injEq]
        rcases replaces a v w x hv hw hx with hplain | rfl
        · exact overlayEntry_plain v hplain
        · exact overlayEntry_null w
  refine read_object_eq_ok_iff.mpr ⟨?_, ?_, ?_⟩
  · rintro ⟨key, v⟩ hmem
    have hv := (lower.overlay upper).keys_ordered.get?_eq_some_iff.mpr hmem
    rw [hget, Option.or_eq_some_iff] at hv
    rcases hv with hv | ⟨-, hv⟩
    · exact hfits' _ (Keyed.mem_of_get?_eq_some hv)
    · exact hfits _ (Keyed.mem_of_get?_eq_some hv)
  · refine checkComplete_eq_ok_iff.mpr fun a ha hrequired => ?_
    rw [hget, Option.isSome_or, checkComplete_eq_ok_iff.mp hcomplete' a ha hrequired, Bool.true_or]
  · funext a
    rw [overlay, ofFields, ofFields, ofFields, hget]
    cases hw : upper.fields.get? (Record.key a) with
    | none => rfl
    | some w =>
      obtain ⟨a', x, ha', hx, -⟩ := hsupplies _ w hw
      obtain rfl : a = a' := Option.some.inj ((keys a).symm.trans ha')
      rw [Option.some_or, Option.bind_some, hx]
      rfl

end Layer

end CanTables.Schema
