import CanTables.Proofs.Document.Ordered
import CanTables.Proofs.Journal
import CanTables.Schema.Layer

/-!
# CanTables.Proofs.Schema.Layer — what a record supplies was read from one of its parts

A layer that is read from a value takes each attribute from a part of that value: the field with the
attribute's key, or the item at the attribute's position.  So what holds of every part of a value —
that its keys are in order, above all — holds of the value that an attribute was read from.
-/

namespace CanTables.Schema

open Document

/-! ## Attributes -/

namespace Layer

variable {A : Type} [Record A]

theorem readAttribute_eq_some {a : A} {v : Value} {x : Record.Carrier a}
    (h : readAttribute a v = .ok (some x)) : Record.read a v = .ok x := by
  unfold readAttribute at h
  split at h
  · split at h
    · cases h
    · obtain ⟨y, hy, hyx⟩ := Except.map_eq_ok_iff.mp h
      cases hyx
      exact hy
  · obtain ⟨y, hy, hyx⟩ := Except.map_eq_ok_iff.mp h
    cases hyx
    exact hy

/-- Only null may supply nothing. -/
theorem readAttribute_of_ne_null {a : A} {v : Value} (h : v ≠ .null) :
    readAttribute a v = (Record.read a v).map some := by
  cases v with
  | null => exact absurd rfl h
  | _ => rfl

theorem join_toOption_eq_some {α ε : Type} {x : Except ε (Option α)} {a : α}
    (h : x.toOption.join = some a) : x = .ok (some a) := by
  cases x with
  | error fault => cases h
  | ok o =>
    have ho : o = some a := h
    rw [ho]

/-- An attribute that an object supplies was read from the field with its key. -/
theorem ofFields_eq_some {fields : Fields} {a : A} {x : Record.Carrier a}
    (h : ofFields fields a = some x) :
    ∃ v, fields.get? (Record.key a) = some v ∧ Record.read a v = .ok x := by
  obtain ⟨v, hv, hx⟩ := Option.bind_eq_some_iff.mp h
  exact ⟨v, hv, readAttribute_eq_some (join_toOption_eq_some hx)⟩

/-- An attribute that an array supplies was read from one of its items. -/
theorem ofItems_eq_some {items : List Value} {a : A} {x : Record.Carrier a}
    (h : ofItems items a = some x) : ∃ v ∈ items, Record.read a v = .ok x := by
  obtain ⟨v, hv, hx⟩ := Option.bind_eq_some_iff.mp h
  exact ⟨v, List.mem_of_getElem? hv, readAttribute_eq_some (join_toOption_eq_some hx)⟩

/-- An object is read if its fields fit and none is missing; then it supplies what they supply. -/
theorem read_object_eq_ok_iff {fields : Fields} {layer : Layer A} :
    read (.object fields) = .ok layer ↔ (∀ field ∈ fields, checkField A field = .ok ()) ∧
      checkComplete A fields = .ok () ∧ layer = ofFields fields := by
  rw [← Except.forM_eq_ok_iff]
  constructor
  · intro h
    obtain ⟨_, hfields, h⟩ := Except.bind_eq_ok_iff.mp h
    obtain ⟨_, hcomplete, h⟩ := Except.bind_eq_ok_iff.mp h
    exact ⟨hfields, hcomplete, (Except.ok.inj h).symm⟩
  · rintro ⟨hfields, hcomplete, rfl⟩
    refine Except.bind_eq_ok_iff.mpr ⟨(), hfields, ?_⟩
    exact Except.bind_eq_ok_iff.mpr ⟨(), hcomplete, rfl⟩

/-- A layer that is read from an object supplies what its fields supply. -/
theorem read_object {fields : Fields} {layer : Layer A} (h : read (.object fields) = .ok layer) :
    layer = ofFields fields := (read_object_eq_ok_iff.mp h).2.2

/-- Fields that fit still do with another fitting value under one key, and supply the same under the
others. -/
theorem read_object_of_erase_eq {fields : Fields} {m : OrderedObject} {key : String} {v v' : Value}
    (rest : Keyed.erase fields key = m.fields.erase key)
    (hv : fields.get? key = some v) (hv' : m.fields.get? key = some v')
    (fits : checkField A (key, v) = .ok () → checkField A (key, v') = .ok ()) {layer : Layer A}
    (h : read (.object fields) = .ok layer) :
    read (.object m.fields) = .ok (ofFields (A := A) m) ∧
      ∀ a : A, Record.key a ≠ key → ofFields m.fields a = layer a := by
  have hothers : ∀ k, k ≠ key → m.fields.get? k = fields.get? k := by
    intro k hk
    have hget := congrArg (Keyed.get? · k) rest
    simp only [Keyed.get?_erase, if_neg hk] at hget
    exact hget.symm
  obtain ⟨hcheck, hcomplete, rfl⟩ := read_object_eq_ok_iff.mp h
  refine ⟨read_object_eq_ok_iff.mpr ⟨?_, ?_, rfl⟩, ?_⟩
  · rintro ⟨k, w⟩ hmem
    have hget := m.keys_ordered.get?_eq_some_iff.mpr hmem
    by_cases hk : k = key
    · subst hk
      rw [hv', Option.some.injEq] at hget
      rw [← hget]
      exact fits (hcheck _ (Keyed.mem_of_get?_eq_some hv))
    · rw [hothers k hk] at hget
      exact hcheck _ (Keyed.mem_of_get?_eq_some hget)
  · have hcontains : ∀ k, m.fields.contains k = fields.contains k := by
      intro k
      by_cases hk : k = key
      · rw [Keyed.contains, Keyed.contains, hk, hv, hv']
        rfl
      · rw [Keyed.contains, Keyed.contains, hothers k hk]
    rw [checkComplete] at hcomplete ⊢
    simp only [hcontains]
    exact hcomplete
  · intro a ha
    rw [ofFields, ofFields, hothers _ ha]

theorem read_array {items : List Value} {layer : Layer A} (h : read (.array items) = .ok layer) :
    layer = ofItems items := by
  obtain ⟨_, -, h⟩ := Except.bind_eq_ok_iff.mp h
  cases h
  rfl

/-- An attribute of a value in order was read from a value in order. -/
theorem read_ordered {v : OrderedValue} {layer : Layer A} (h : read v = .ok layer)
    {a : A} {x : Record.Carrier a} (hx : layer a = some x) :
    ∃ w : OrderedValue, Record.read a w = .ok x := by
  obtain ⟨v, hv⟩ := v
  cases v with
  | object fields =>
    rw [read_object h] at hx
    obtain ⟨w, hw, hread⟩ := ofFields_eq_some hx
    exact ⟨⟨w, Value.ordered_of_get? hv hw⟩, hread⟩
  | array items =>
    rw [read_array h] at hx
    obtain ⟨w, hw, hread⟩ := ofItems_eq_some hx
    exact ⟨⟨w, Value.ordered_array_iff.mp hv w hw⟩, hread⟩
  | _ => cases h

end Layer

/-! ## Collections -/

/-- Reading the values of an object keeps its keys. -/
theorem Reader.map_keys {α : Type} {item : Reader α} {fields : Fields} {m : Keyed String α}
    (h : Reader.map item (.object fields) = .ok m) : Keyed.keys m = Keyed.keys fields := by
  have hentries := Except.mapM_eq_ok_iff.mp h
  clear h
  induction hentries with
  | nil => rfl
  | @cons entry entry' rest rest' hentry _ ih =>
    obtain ⟨x, -, hx⟩ := Except.bind_eq_ok_iff.mp hentry
    cases hx
    simp only [Keyed.keys, List.map_cons] at ih ⊢
    rw [ih]

theorem Reader.map_ordered {α : Type} {item : Reader α} {v : OrderedValue} {m : Keyed String α}
    (h : Reader.map item v = .ok m) : m.Ordered := by
  obtain ⟨v, hv⟩ := v
  cases v with
  | object fields => exact (Value.ordered_object_iff.mp hv).1.of_keys_eq (Reader.map_keys h)
  | _ => cases h

theorem Reader.object_eq_ok {v : Value} {fields : Fields} (h : Reader.object v = .ok fields) :
    v = .object fields := by
  cases v with
  | object fields' =>
    cases h
    rfl
  | _ => cases h

end CanTables.Schema
