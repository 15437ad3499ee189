import CanTables.Proofs.Document.Overlay
import CanTables.Proofs.Schema.Layer

/-!
# CanTables.Proofs.Schema.Part — the part of a value that an attribute is read from

A value gives something for an attribute under the attribute's key if it is an object, at the
attribute's position if it is an array (`Layer.part?`).  Once the value is read as a record, its
layer supplies exactly what these parts are read as (`Layer.read_part`).

Most attributes hold lists.  `Layer.itemsAt` is the list of items that a value gives for one, and
`Layer.itemsAt_overlay` says what becomes of two such lists when one value is laid over another.
-/

namespace CanTables.Schema.Layer

open Document Value

variable {A : Type} [Record A]

/-! ## Parts -/

/-- What a value gives for an attribute. -/
def part? (a : A) : Value → Option Value
  | .object fields => Keyed.get? fields (Record.key a)
  | .array items =>
    items[(Record.attributes (A := A)).findIdx fun b => Record.key b == Record.key a]?
  | _ => none

theorem checkItems_getElem? {total : Nat} {attributes : List A} {items : List Value} {index : Nat}
    (h : checkItems total attributes items index = .ok ()) {i : Nat} {a : A} {v : Value}
    (ha : attributes[i]? = some a) (hv : items[i]? = some v) : ∃ x, readAttribute a v = .ok x := by
  induction attributes generalizing items index i with
  | nil => cases ha
  | cons b rest ih =>
    cases items with
    | nil => cases hv
    | cons w items =>
      unfold checkItems at h
      split at h
      · cases h
      · next x hread =>
        cases i with
        | zero =>
          cases ha
          cases hv
          exact ⟨x, hread⟩
        | succ i => exact ih h ha hv

/-- A record supplies what its parts are read as. -/
theorem read_part {v : Value} {layer : Layer A} (h : read v = .ok layer) {a : A}
    (known : attribute? (Record.key a) = some a) :
    (part? a v = none → layer a = none) ∧
      ∀ w, part? a v = some w → readAttribute a w = .ok (layer a) := by
  cases v with
  | object fields =>
    obtain ⟨hcheck, -, rfl⟩ := read_object_eq_ok_iff.mp h
    refine ⟨fun hnone => ?_, fun w hw => ?_⟩
    · have hget : Keyed.get? fields (Record.key a) = none := hnone
      rw [ofFields, hget, Option.bind_none]
    · have hget : Keyed.get? fields (Record.key a) = some w := hw
      -- The field was checked for the attribute that its key stands for, which is this one.
      have hfits := hcheck _ (Keyed.mem_of_get?_eq_some hget)
      rw [checkField, known] at hfits
      obtain ⟨x, hx, -⟩ := Except.map_eq_ok_iff.mp hfits
      rw [ofFields, hget, Option.bind_some, hx]
      cases x <;> rfl
  | array items =>
    obtain ⟨_, hcheck, h⟩ := Except.bind_eq_ok_iff.mp h
    cases h
    rw [attribute?, List.find?_eq_getElem?_findIdx] at known
    refine ⟨fun hnone => ?_, fun w hw => ?_⟩
    · show Option.bind (part? a (.array items)) _ = none
      rw [hnone, Option.bind_none]
    · obtain ⟨x, hx⟩ := checkItems_getElem? hcheck known hw
      show readAttribute a w = .ok (Option.bind (part? a (.array items)) _)
      rw [hw, Option.bind_some, hx]
      cases x <;> rfl
  | _ => cases h

/-! ## Lists of items -/

/-- The items that a value gives for an attribute. -/
def itemsAt (a : A) (v : Value) : List Value :=
  match part? a v with
  | some (.array items) => items
  | _ => []

/-- A value is an object and gives nothing for an attribute but items. -/
def GivesItems (a : A) (v : Value) : Prop :=
  ∃ fields : Fields, v = .object fields ∧
    ∀ w, fields.get? (Record.key a) = some w → ∃ items, w = .array items

/-- The items that a lower value gives for an attribute stay when the upper value is laid over it:
both are objects and the upper one gives nothing but items. -/
def keepsBelow (a : A) (below above : Value) : Bool :=
  match below, above with
  | .object _, .object upper =>
    match Keyed.get? upper (Record.key a) with
    | none | some (.array _) => true
    | some _ => false
  | _, _ => false

theorem itemsAt_object (a : A) (fields : Fields) :
    itemsAt a (.object fields) =
      match fields.get? (Record.key a) with
      | some (.array items) => items
      | _ => [] := rfl

/-- A list on top of another list of items comes behind it, if the lower one stays at all. -/
theorem itemsAt_overlay (below above : OrderedValue) (a : A) :
    itemsAt a (Value.overlay below above) =
      (if keepsBelow a below above then itemsAt a below else []) ++ itemsAt a above := by
  obtain ⟨below, hbelow⟩ := below
  obtain ⟨above, habove⟩ := above
  cases below with
  | object lower =>
    cases above with
    | object upper =>
      have hget := get?_overlayFields ⟨lower, hbelow⟩ ⟨upper, habove⟩ (Record.key a)
      rw [overlay_object, itemsAt_object, hget, itemsAt_object, itemsAt_object, keepsBelow]
      -- Only an array on an array joins both; anything else on top hides what is below.
      cases hupper : Keyed.get? upper (Record.key a) with
      | none =>
        rw [Option.merge_none_right]
        simp
      | some above =>
        cases hlower : Keyed.get? lower (Record.key a) with
        | none =>
          rw [Option.merge_none_left]
          simp
        | some below =>
          rw [Option.merge_some_some]
          cases above <;> cases below <;> rfl
    | _ => rfl
  | _ => rfl

theorem keepsBelow_of_givesItems {a : A} {below above : Value} (hbelow : GivesItems a below)
    (habove : GivesItems a above) : keepsBelow a below above = true := by
  obtain ⟨lower, rfl, -⟩ := hbelow
  obtain ⟨upper, rfl, hupper⟩ := habove
  cases hget : upper.get? (Record.key a) with
  | none => simp only [keepsBelow, hget]
  | some w =>
    obtain ⟨items, rfl⟩ := hupper w hget
    simp only [keepsBelow, hget]

theorem GivesItems.overlay {a : A} {below above : OrderedValue} (h : GivesItems a below)
    (h' : GivesItems a above) : GivesItems a (Value.overlay below above) := by
  obtain ⟨below, hbelow⟩ := below
  obtain ⟨above, habove⟩ := above
  obtain ⟨lower, rfl, hlower⟩ := h
  obtain ⟨upper, rfl, hupper⟩ := h'
  refine ⟨overlayFields lower upper, overlay_object lower upper, fun w hw => ?_⟩
  rw [get?_overlayFields ⟨lower, hbelow⟩ ⟨upper, habove⟩] at hw
  cases hget : upper.get? (Record.key a) with
  | none =>
    rw [hget, Option.merge_none_right] at hw
    exact hlower w hw
  | some above =>
    obtain ⟨items, rfl⟩ := hupper above hget
    cases hget' : lower.get? (Record.key a) with
    | none =>
      rw [hget, hget', Option.merge_none_left] at hw
      exact ⟨items, (Option.some.inj hw).symm⟩
    | some below =>
      obtain ⟨items', rfl⟩ := hlower below hget'
      rw [hget, hget', Option.merge_some_some] at hw
      exact ⟨items' ++ items, (Option.some.inj hw).symm⟩

end CanTables.Schema.Layer
