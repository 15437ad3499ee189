import CanTables.Proofs.Document.Ordered

/-!
# CanTables.Proofs.Document.Overlay — what stands under a key of two layers

Two objects merge key by key: under each key stands what the two layers have there, one of them or
both merged (`get?_overlayFields`).  Looking at one key of a layer, and taking one key out of it,
therefore commute with putting layers on top of each other.
-/

namespace CanTables.Document.Value

/-! ## Two objects -/

/-- Under a key stands what either layer has there, or both merged. -/
theorem get?_overlayFields (lower upper : OrderedObject) (key : String) :
    Keyed.get? (overlayFields lower upper) key =
      Option.merge overlayEntry (lower.fields.get? key) (upper.fields.get? key) := by
  have hlower := lower.keys_ordered
  have hupper := upper.keys_ordered
  -- Only the keys of the layers themselves matter, and those of the lower one grow in order.
  generalize lower.fields = lower at hlower ⊢
  generalize upper.fields = upper at hupper ⊢
  induction upper generalizing lower with
  | nil =>
    show lower.get? key = _
    cases lower.get? key <;> rfl
  | cons entry rest ih =>
    obtain ⟨k, v⟩ := entry
    rw [overlayFields, ih _ (hlower.upsert _ _) hupper.tail, hlower.get?_upsert, Keyed.get?_cons]
    -- The rest of an ordered layer does not have its first key again.
    by_cases hk : key = k
    · have habsent : Keyed.get? rest k = none := by
        rw [Keyed.get?_eq_none_iff]
        exact fun hmem => Std.lt_irrefl (hupper.head_lt hmem)
      subst hk
      rw [if_pos rfl, if_pos rfl, habsent]
      cases lower.get? key <;> rfl
    · rw [if_neg hk, if_neg hk]

/-- Two layers have the keys of either. -/
theorem mem_keys_overlayFields (lower upper : OrderedObject) {key : String} :
    key ∈ Keyed.keys (overlayFields lower upper) ↔
      key ∈ lower.fields.keys ∨ key ∈ upper.fields.keys := by
  rw [← Keyed.isSome_get?_iff, ← Keyed.isSome_get?_iff, ← Keyed.isSome_get?_iff,
    get?_overlayFields]
  cases lower.fields.get? key <;> cases upper.fields.get? key <;> simp

theorem overlayFields_nil (upper : OrderedObject) : overlayFields [] upper = upper := by
  have hget := get?_overlayFields .empty upper
  refine Keyed.eq_of_get?_eq (OrderedObject.empty.overlay upper).keys_ordered upper.keys_ordered
    fun key => ?_
  rw [hget]
  exact Option.merge_none_left

theorem erase_overlayFields (lower upper : OrderedObject) (key : String) :
    Keyed.erase (overlayFields lower upper) key =
      overlayFields (lower.erase key) (upper.erase key) := by
  refine Keyed.eq_of_get?_eq ((lower.overlay upper).erase key).keys_ordered
    ((lower.erase key).overlay (upper.erase key)).keys_ordered fun k => ?_
  rw [Keyed.get?_erase, get?_overlayFields, get?_overlayFields, Keyed.get?_erase, Keyed.get?_erase]
  split <;> rfl

/-! ## Two values -/

theorem overlayEntry_object (lower upper : Fields) :
    overlayEntry (object lower) (object upper) = object (overlayFields lower upper) := by
  rw [overlayEntry]

theorem overlayEntry_of_not_object {below : Value} (h : ∀ lower, below ≠ object lower)
    (upper : Fields) : overlayEntry below (object upper) = object upper := by
  cases below with
  | object lower => exact absurd rfl (h lower)
  | _ => simp only [overlayEntry]

theorem overlayEntry_not_object (lower : Fields) {above : Value}
    (h : ∀ upper, above ≠ object upper) : overlayEntry (object lower) above = above := by
  cases above with
  | object upper => exact absurd rfl (h upper)
  | _ => simp only [overlayEntry]

/-- A value that is no object does not become one over another. -/
theorem overlayEntry_ne_object (below : Value) {above : Value} (h : ∀ upper, above ≠ object upper)
    (fields : Fields) : overlayEntry below above ≠ object fields := by
  cases above with
  | object upper => exact absurd rfl (h upper)
  | array items => cases below <;> exact fun heq => nomatch heq
  | _ => exact fun heq => nomatch heq

/-- A value that replaces whatever is below it. -/
def IsPlain : Value → Prop
  | object _ => False
  | array _ => False
  | _ => True

theorem IsPlain.ordered {v : Value} (h : v.IsPlain) : v.Ordered := by
  cases v with
  | array items => exact h.elim
  | object fields => exact h.elim
  | _ => trivial

theorem overlayEntry_plain (below : Value) {above : Value} (h : above.IsPlain) :
    overlayEntry below above = above := by
  cases above with
  | object fields => exact h.elim
  | array items => exact h.elim
  | _ => simp only [overlayEntry]

/-- Over a plain value, too, any value stands. -/
theorem overlayEntry_of_plain {below : Value} (h : below.IsPlain) (above : Value) :
    overlayEntry below above = above := by
  cases below with
  | object fields => exact h.elim
  | array items => exact h.elim
  | _ => cases above <;> simp only [overlayEntry]

/-- Two values of which not both are arrays and not both are objects do not merge: the upper one
stands. -/
theorem overlayEntry_of_not_merging {below above : Value}
    (harrays : ¬ ∃ xs ys, below = .array xs ∧ above = .array ys)
    (hobjects : ¬ ∃ m n, below = .object m ∧ above = .object n) :
    overlayEntry below above = above := by
  cases above with
  | object upper =>
    apply overlayEntry_of_not_object
    exact fun lower heq => hobjects ⟨lower, upper, heq, rfl⟩
  | array items =>
    cases below with
    | array lower => exact absurd ⟨lower, items, rfl, rfl⟩ harrays
    | _ => simp only [overlayEntry]
  | _ => exact overlayEntry_plain below trivial

/-- Over plain values every field of the upper layer stands, and the others come from below. -/
theorem get?_overlayFields_of_plain (lower upper : OrderedObject)
    (plain : ∀ entry ∈ lower.fields, entry.2.IsPlain) (key : String) :
    Keyed.get? (overlayFields lower upper) key =
      (upper.fields.get? key).or (lower.fields.get? key) := by
  rw [get?_overlayFields]
  cases hbelow : lower.fields.get? key with
  | none => cases upper.fields.get? key <;> rfl
  | some below =>
    cases upper.fields.get? key with
    | none => rfl
    | some above =>
      have hplain := plain _ (Keyed.mem_of_get?_eq_some hbelow)
      exact congrArg some (overlayEntry_of_plain hplain above)

/-- A layer that has all keys already gets no others from below. -/
theorem keys_overlayFields (lower upper : OrderedObject)
    (h : ∀ key ∈ lower.fields.keys, key ∈ upper.fields.keys) :
    Keyed.keys (overlayFields lower upper) = upper.fields.keys := by
  refine Keyed.keys_eq_of_mem_iff (lower.overlay upper).keys_ordered upper.keys_ordered
    fun key => ?_
  rw [mem_keys_overlayFields]
  exact ⟨fun hkey => hkey.elim (h key) fun hkey => hkey, .inr⟩

theorem overlay_object (lower upper : Fields) :
    overlay (object lower) (object upper) = object (overlayFields lower upper) := rfl

/-- A value that is no object hides nothing and is hidden by nothing below: the upper layer
stands. -/
theorem overlay_of_not_object {below : Value} (h : ∀ lower, below ≠ object lower) (above : Value) :
    overlay below above = above := by
  cases below with
  | object lower => exact absurd rfl (h lower)
  | _ => rfl

theorem overlay_not_object (below : Value) {above : Value} (h : ∀ upper, above ≠ object upper) :
    overlay below above = above := by
  cases above with
  | object upper => exact absurd rfl (h upper)
  | _ => cases below <;> rfl

/-- Taking a key out of two layers takes it out of what they make up. -/
theorem eraseField_overlay (below above : OrderedValue) (key : String) :
    (overlay below above).eraseField key =
      overlay (below.value.eraseField key) (above.value.eraseField key) := by
  obtain ⟨below, hbelow⟩ := below
  obtain ⟨above, habove⟩ := above
  cases below with
  | object lower =>
    cases above with
    | object upper =>
      exact congrArg object (erase_overlayFields ⟨lower, hbelow⟩ ⟨upper, habove⟩ key)
    | _ => rfl
  | _ => rfl

/-- The value under a key of two objects. -/
theorem field?_overlay_object (lower upper : OrderedObject) (key : String) :
    (overlay lower.toValue upper.toValue).field? key =
      Option.merge overlayEntry (lower.fields.get? key) (upper.fields.get? key) :=
  get?_overlayFields lower upper key

end CanTables.Document.Value
