import CanTables.Document.Overlay
import CanTables.Document.Reader
import CanTables.Proofs.Order.Keyed

/-!
# CanTables.Proofs.Document.Ordered — every object that is read has its keys in order

The reader inserts fields in key order, and putting one layer on top of another keeps that order at
every depth.  So the order of keys, on which lookups and the equality of objects rest, holds of
every value that comes out of configuration files.

An `OrderedValue` is a value together with its order, and an `OrderedObject` is the fields of one
that is an object.  What is taken out of them, or put together from them, is ordered again; so what
is proved about layers is proved about these, and does not ask for the order any more.
-/

namespace CanTables.Document

namespace Value

/-! ## The order at every depth -/

theorem orderedItems_iff {items : List Value} : OrderedItems items ↔ ∀ v ∈ items, v.Ordered := by
  induction items with
  | nil => simp [OrderedItems]
  | cons item rest ih => simp [OrderedItems, ih]

theorem orderedFields_iff {fields : List (String × Value)} :
    OrderedFields fields ↔ ∀ entry ∈ fields, entry.2.Ordered := by
  induction fields with
  | nil => simp [OrderedFields]
  | cons entry rest ih =>
    obtain ⟨key, value⟩ := entry
    simp only [OrderedFields, ih, List.forall_mem_cons]

theorem ordered_array_iff {items : List Value} :
    (array items).Ordered ↔ ∀ v ∈ items, v.Ordered := by
  rw [Ordered, orderedItems_iff]

theorem ordered_object_iff {fields : Fields} :
    (object fields).Ordered ↔ Keyed.Ordered fields ∧ ∀ entry ∈ fields, entry.2.Ordered := by
  rw [Ordered, orderedFields_iff]

theorem ordered_of_get? {fields : Fields} {key : String} {v : Value}
    (h : (object fields).Ordered) (hv : fields.get? key = some v) : v.Ordered :=
  (ordered_object_iff.mp h).2 _ (Keyed.mem_of_get?_eq_some hv)

theorem ordered_object_filter {fields : Fields} (h : (object fields).Ordered)
    (p : String × Value → Bool) : (object (fields.filter p)).Ordered := by
  obtain ⟨hkeys, hvalues⟩ := ordered_object_iff.mp h
  exact ordered_object_iff.mpr
    ⟨hkeys.filter p, fun entry hmem => hvalues entry (List.mem_of_mem_filter hmem)⟩

/-- A value under a new or an old key, made from nothing or from the value that is there. -/
theorem ordered_object_upsert {fields : Fields} (h : (object fields).Ordered) (key : String)
    {f : Option Value → Value} (hnone : (f none).Ordered)
    (hsome : ∀ v : Value, v.Ordered → (f (some v)).Ordered) :
    (object (Keyed.upsert key f fields)).Ordered := by
  obtain ⟨hkeys, hvalues⟩ := ordered_object_iff.mp h
  refine ordered_object_iff.mpr ⟨hkeys.upsert key f, ?_⟩
  rintro ⟨k, v⟩ hmem
  have hget := (hkeys.upsert key f).get?_eq_some_iff.mpr hmem
  rw [hkeys.get?_upsert] at hget
  split at hget
  · cases hold : fields.get? key with
    | none =>
      rw [hold] at hget
      cases hget
      exact hnone
    | some old =>
      rw [hold] at hget
      cases hget
      exact hsome old (ordered_of_get? h hold)
  · exact hvalues _ (Keyed.mem_of_get?_eq_some hget)

theorem ordered_object_insert {fields : Fields} (h : (object fields).Ordered) (key : String)
    {v : Value} (hv : v.Ordered) : (object (Keyed.insert fields key v)).Ordered :=
  ordered_object_upsert h key hv fun _ _ => hv

theorem ordered_object_insertIfNew {fields : Fields} (h : (object fields).Ordered) (key : String)
    {v : Value} (hv : v.Ordered) : (object (Keyed.insertIfNew fields key v)).Ordered :=
  ordered_object_upsert h key hv fun _ hold => hold

theorem ordered_eraseField {v : Value} (h : v.Ordered) (key : String) :
    (v.eraseField key).Ordered := by
  cases v with
  | object fields => exact ordered_object_filter h _
  | _ => exact h

theorem ordered_field? {v w : Value} (h : v.Ordered) {key : String} (hw : v.field? key = some w) :
    w.Ordered := by
  cases v with
  | object fields => exact ordered_of_get? h hw
  | _ => cases hw

theorem sizeOf_lt_of_get? {fields : Fields} {key : String} {v : Value}
    (h : fields.get? key = some v) : sizeOf v < sizeOf (object fields) := by
  have hentry := List.sizeOf_lt_of_mem (Keyed.mem_of_get?_eq_some h)
  simp only [Prod.mk.sizeOf_spec] at hentry
  simp only [object.sizeOf_spec]
  omega

mutual

/-- The order of all keys can be checked. -/
def decidableOrdered : (v : Value) → Decidable v.Ordered
  | .array items => decidableOrderedItems items
  | .object fields =>
    have := decidableOrderedFields fields
    inferInstanceAs (Decidable (fields.Pairwise (fun a b => a.1 < b.1) ∧ OrderedFields fields))
  | .null | .bool _ | .int _ | .real _ | .text _ => .isTrue trivial

def decidableOrderedItems : (items : List Value) → Decidable (OrderedItems items)
  | [] => .isTrue trivial
  | item :: rest =>
    have := decidableOrdered item
    have := decidableOrderedItems rest
    inferInstanceAs (Decidable (Ordered item ∧ OrderedItems rest))

def decidableOrderedFields : (fields : List (String × Value)) → Decidable (OrderedFields fields)
  | [] => .isTrue trivial
  | (_, value) :: rest =>
    have := decidableOrdered value
    have := decidableOrderedFields rest
    inferInstanceAs (Decidable (Ordered value ∧ OrderedFields rest))

end

instance : DecidablePred Ordered := decidableOrdered

/-! ## Layers -/

mutual

theorem ordered_overlayEntry {below : Value} (hbelow : below.Ordered) :
    ∀ {above : Value}, above.Ordered → (overlayEntry below above).Ordered
  | .object fields, habove => by
    cases below with
    | object lower =>
      rw [overlayEntry]
      exact ordered_overlayFields hbelow (ordered_object_iff.mp habove).2
    | _ => exact habove
  | .array items, habove => by
    cases below with
    | array lower =>
      rw [overlayEntry, ordered_array_iff]
      intro v hv
      rcases List.mem_append.mp hv with hv | hv
      · exact ordered_array_iff.mp hbelow v hv
      · exact ordered_array_iff.mp habove v hv
    | _ => exact habove
  | .null, habove => habove
  | .bool _, habove => habove
  | .int _, habove => habove
  | .real _, habove => habove
  | .text _, habove => habove

theorem ordered_overlayFields {lower : Fields} (hlower : (object lower).Ordered) :
    ∀ {upper : List (String × Value)}, (∀ entry ∈ upper, entry.2.Ordered) →
      (object (overlayFields lower upper)).Ordered
  | [], _ => hlower
  | (key, value) :: rest, hupper => by
    have hvalue : value.Ordered := hupper (key, value) List.mem_cons_self
    refine ordered_overlayFields
      (ordered_object_upsert hlower key hvalue fun old hold => ordered_overlayEntry hold hvalue) ?_
    exact fun entry hmem => hupper entry (List.mem_cons_of_mem _ hmem)

end

/-- Putting one layer on top of another keeps the keys of both in order. -/
theorem ordered_overlay {below above : Value} (hbelow : below.Ordered) (habove : above.Ordered) :
    (overlay below above).Ordered := by
  cases below with
  | object lower =>
    cases above with
    | object upper => exact ordered_overlayFields hbelow (ordered_object_iff.mp habove).2
    | _ => exact habove
  | _ => exact habove

end Value

/-! ## What is read -/

namespace Token

/-- The value of a number or a name has no keys at all. -/
def IsPlain : Token → Prop
  | .scalar v => v.Ordered
  | _ => True

theorem numeral?_ordered {negative : Bool} {cs : List Char} {v : Value}
    (h : numeral? negative cs = some v) : v.Ordered := by
  obtain ⟨n, -, h⟩ := Option.bind_eq_some_iff.mp h
  obtain ⟨-, -, h⟩ := Option.bind_eq_some_iff.mp h
  dsimp only at h
  generalize (if negative = true then _ else _ : Int) = whole at h
  rcases ite_eq_iff.mp h with ⟨-, h⟩ | ⟨-, h⟩
  · cases h
    trivial
  · obtain ⟨x, -, rfl⟩ := Option.map_eq_some_iff.mp h
    trivial

theorem word?_ordered {cs : List Char} {v : Value} (h : word? cs = some v) : v.Ordered := by
  unfold word? at h
  split at h
  · cases h
    trivial
  split at h
  · cases h
    trivial
  split at h
  · cases h
    trivial
  split at h <;> exact numeral?_ordered h

theorem mark?_isPlain {c : Char} {t : Token} (h : mark? c = some t) : t.IsPlain := by
  unfold mark? at h
  repeat' split at h
  all_goals cases h
  all_goals trivial

/-- The words read so far are plain. -/
def Scanner.Plain (s : Scanner) : Prop := ∀ t ∈ s.words, t.IsPlain

theorem stepBetween_plain {words : List Token} (h : ∀ t ∈ words, t.IsPlain) {c : Char}
    {s : Scanner} (hs : stepBetween words c = some s) : s.Plain := by
  unfold stepBetween at hs
  split at hs
  · cases hs
    exact h
  split at hs
  · cases hs
    exact h
  split at hs
  · cases hs
    exact h
  obtain ⟨t, ht, rfl⟩ := Option.map_eq_some_iff.mp hs
  exact List.forall_mem_cons.mpr ⟨mark?_isPlain ht, h⟩

/-- One character keeps the words plain. -/
theorem step_plain {s s' : Scanner} (h : s.Plain) {c : Char} (hs : step s c = some s') :
    s'.Plain := by
  obtain ⟨mode, words⟩ := s
  cases mode with
  | between => exact stepBetween_plain h hs
  | word read =>
    simp only [step] at hs
    split at hs
    · cases hs
      exact h
    · obtain ⟨v, hv, hs⟩ := Option.bind_eq_some_iff.mp hs
      have hwords : ∀ t ∈ Token.scalar v :: words, t.IsPlain :=
        List.forall_mem_cons.mpr ⟨word?_ordered hv, h⟩
      exact stepBetween_plain hwords hs
  | quoted read =>
    simp only [step] at hs
    split at hs
    · cases hs
      exact List.forall_mem_cons.mpr ⟨trivial, h⟩
    split at hs
    · cases hs
      exact h
    split at hs
    · cases hs
    · cases hs
      exact h
  | escaped read high =>
    simp only [step] at hs
    split at hs
    · cases hs
      exact h
    split at hs
    · cases hs
    · obtain ⟨d, -, rfl⟩ := Option.map_eq_some_iff.mp hs
      exact h
  | code read high count value =>
    simp only [step] at hs
    obtain ⟨digit, -, hs⟩ := Option.bind_eq_some_iff.mp hs
    split at hs
    · obtain ⟨mode, -, rfl⟩ := Option.map_eq_some_iff.mp hs
      exact h
    · cases hs
      exact h
  | halfPair read high =>
    simp only [step] at hs
    split at hs
    · cases hs
      exact h
    · cases hs

/-- What every step of a machine keeps, a run keeps. -/
theorem foldlM_plain {cs : List Char} {s s' : Scanner} (h : s.Plain)
    (hs : cs.foldlM step s = some s') : s'.Plain := by
  induction cs generalizing s with
  | nil =>
    cases hs
    exact h
  | cons c rest ih =>
    rw [List.foldlM_cons] at hs
    obtain ⟨mid, hmid, hs⟩ := Option.bind_eq_some_iff.mp hs
    exact ih (step_plain h hmid) hs

/-- The words of a text are plain. -/
theorem ofChars?_plain {cs : List Char} {ts : List Token} (h : ofChars? cs = some ts) :
    ∀ t ∈ ts, t.IsPlain := by
  obtain ⟨s, hs, hfinish⟩ := Option.bind_eq_some_iff.mp h
  have hplain : s.Plain := foldlM_plain (fun t ht => absurd ht List.not_mem_nil) hs
  obtain ⟨mode, words⟩ := s
  cases mode with
  | between =>
    cases hfinish
    exact fun t ht => hplain t (List.mem_reverse.mp ht)
  | word read =>
    obtain ⟨v, hv, rfl⟩ := Option.map_eq_some_iff.mp hfinish
    intro t ht
    rcases List.mem_cons.mp (List.mem_reverse.mp ht) with rfl | ht
    · exact word?_ordered hv
    · exact hplain t ht
  | _ => cases hfinish

end Token

namespace Reader

/-- What is open, or has just been read, has its keys in order. -/
def Frame.Ordered : Frame → Prop
  | .array items => ∀ v ∈ items, v.Ordered
  | .object fields _ => (Value.object fields).Ordered

/-- The values of a reader's state have their keys in order. -/
def State.Ordered (s : State) : Prop :=
  (∀ frame ∈ s.stack, frame.Ordered) ∧ ∀ v, s.next = .more v → v.Ordered

theorem begin?_ordered {levels : Nat} {stack : List Frame} (h : ∀ frame ∈ stack, frame.Ordered)
    {token : Token} (ht : token.IsPlain) {s : State} (hs : begin? levels stack token = some s) :
    s.Ordered := by
  cases token with
  | scalar v =>
    cases hs
    exact ⟨h, fun w hw => by cases hw; exact ht⟩
  | text s =>
    cases hs
    exact ⟨h, fun w hw => by cases hw; trivial⟩
  | openArray =>
    simp only [begin?] at hs
    split at hs
    · cases hs
      refine ⟨List.forall_mem_cons.mpr ⟨?_, h⟩, fun w hw => nomatch hw⟩
      exact fun v hv => absurd hv List.not_mem_nil
    · cases hs
  | openObject =>
    simp only [begin?] at hs
    split at hs
    · cases hs
      refine ⟨List.forall_mem_cons.mpr ⟨?_, h⟩, fun w hw => nomatch hw⟩
      exact Value.ordered_object_iff.mpr
        ⟨Keyed.ordered_nil, fun entry hmem => absurd hmem List.not_mem_nil⟩
    · cases hs
  | _ => cases hs

theorem continue?_ordered {stack : List Frame} (h : ∀ frame ∈ stack, frame.Ordered) {read : Value}
    (hread : read.Ordered) {token : Token} {s : State} (hs : continue? stack read token = some s) :
    s.Ordered := by
  unfold continue? at hs
  split at hs
  · cases hs
    obtain ⟨hitems, houter⟩ := List.forall_mem_cons.mp h
    exact ⟨List.forall_mem_cons.mpr ⟨List.forall_mem_cons.mpr ⟨hread, hitems⟩, houter⟩,
      fun w hw => nomatch hw⟩
  · cases hs
    obtain ⟨hitems, houter⟩ := List.forall_mem_cons.mp h
    refine ⟨houter, fun w hw => ?_⟩
    cases hw
    rw [Value.ordered_array_iff]
    intro v hv
    exact List.forall_mem_cons.mpr ⟨hread, hitems⟩ v (List.mem_reverse.mp hv)
  · cases hs
    obtain ⟨hfields, houter⟩ := List.forall_mem_cons.mp h
    exact ⟨List.forall_mem_cons.mpr ⟨Value.ordered_object_insert hfields _ hread, houter⟩,
      fun w hw => nomatch hw⟩
  · cases hs
    obtain ⟨hfields, houter⟩ := List.forall_mem_cons.mp h
    refine ⟨houter, fun w hw => ?_⟩
    cases hw
    exact Value.ordered_object_insert hfields _ hread
  · cases hs

/-- One word keeps the keys in order. -/
theorem step_ordered {levels : Nat} {s s' : State} (h : s.Ordered) {token : Token}
    (ht : token.IsPlain) (hs : step levels s token = some s') : s'.Ordered := by
  obtain ⟨stack, next⟩ := s
  obtain ⟨hstack, hread⟩ := h
  cases next with
  | value => exact begin?_ordered hstack ht hs
  | firstItem =>
    simp only [step] at hs
    split at hs
    · cases hs
      obtain ⟨-, houter⟩ := List.forall_mem_cons.mp hstack
      exact ⟨houter, fun w hw => by cases hw; trivial⟩
    · exact begin?_ordered hstack ht hs
  | firstKey =>
    simp only [step] at hs
    split at hs
    · cases hs
      obtain ⟨-, houter⟩ := List.forall_mem_cons.mp hstack
      refine ⟨houter, fun w hw => ?_⟩
      cases hw
      exact Value.ordered_object_iff.mpr
        ⟨Keyed.ordered_nil, fun entry hmem => absurd hmem List.not_mem_nil⟩
    · cases hs
      exact ⟨hstack, fun w hw => nomatch hw⟩
    · cases hs
  | key =>
    simp only [step] at hs
    split at hs
    · cases hs
      exact ⟨hstack, fun w hw => nomatch hw⟩
    · cases hs
  | colon name =>
    simp only [step] at hs
    split at hs
    · cases hs
      obtain ⟨hfields, houter⟩ := List.forall_mem_cons.mp hstack
      exact ⟨List.forall_mem_cons.mpr ⟨hfields, houter⟩, fun w hw => nomatch hw⟩
    · cases hs
  | more read => exact continue?_ordered hstack (hread read rfl) hs

theorem foldlM_ordered {levels : Nat} {tokens : List Token} (ht : ∀ t ∈ tokens, t.IsPlain)
    {s s' : State} (h : s.Ordered) (hs : tokens.foldlM (step levels) s = some s') :
    s'.Ordered := by
  induction tokens generalizing s with
  | nil =>
    cases hs
    exact h
  | cons token rest ih =>
    rw [List.foldlM_cons] at hs
    obtain ⟨mid, hmid, hs⟩ := Option.bind_eq_some_iff.mp hs
    obtain ⟨htoken, hrest⟩ := List.forall_mem_cons.mp ht
    exact ih hrest (step_ordered h htoken hmid) hs

end Reader

/-- The keys of every object that a text holds are in order. -/
theorem Value.ordered_of_ofText? {levels : Nat} {text : String} {v : Value}
    (h : Value.ofText? levels text = some v) : v.Ordered := by
  obtain ⟨tokens, htokens, h⟩ := Option.bind_eq_some_iff.mp h
  obtain ⟨⟨stack, next⟩, hs, h⟩ := Option.bind_eq_some_iff.mp h
  have start : Reader.State.start.Ordered :=
    ⟨fun frame hframe => absurd hframe List.not_mem_nil, fun w hw => nomatch hw⟩
  have hordered := Reader.foldlM_ordered (Token.ofChars?_plain htokens) start hs
  unfold Reader.finish? at h
  split at h
  · next read hnext =>
    cases h
    exact hordered.2 _ hnext
  · cases h

/-! ## Values that carry their order -/

/-- A value all of whose objects have their keys in order. -/
@[ext]
structure OrderedValue where
  value : Value
  ordered : value.Ordered

/-- The fields of an object that has its keys in order, at every depth. -/
structure OrderedObject where
  fields : Fields
  ordered : (Value.object fields).Ordered

instance : Coe OrderedValue Value := ⟨OrderedValue.value⟩

instance : Coe OrderedObject Fields := ⟨OrderedObject.fields⟩

instance : CanLift Value OrderedValue OrderedValue.value Value.Ordered :=
  ⟨fun v h => ⟨⟨v, h⟩, rfl⟩⟩

instance : CanLift Fields OrderedObject OrderedObject.fields fun fields =>
    (Value.object fields).Ordered := ⟨fun fields h => ⟨⟨fields, h⟩, rfl⟩⟩

namespace OrderedObject

theorem keys_ordered (m : OrderedObject) : m.fields.Ordered :=
  (Value.ordered_object_iff.mp m.ordered).1

theorem values_ordered (m : OrderedObject) : ∀ entry ∈ m.fields, entry.2.Ordered :=
  (Value.ordered_object_iff.mp m.ordered).2

/-- The values under some of the keys. -/
theorem values_of_subset (m : OrderedObject) {part : Fields} (h : part ⊆ m.fields) :
    ∀ v ∈ part.map Prod.snd, v.Ordered := by
  intro v hv
  obtain ⟨entry, hentry, rfl⟩ := List.mem_map.mp hv
  exact m.values_ordered entry (h hentry)

/-- The fields as a map. -/
abbrev entries (m : OrderedObject) : OrderedKeyed String Value := ⟨m.fields, m.keys_ordered⟩

/-- The object itself. -/
abbrev toValue (m : OrderedObject) : OrderedValue := ⟨.object m.fields, m.ordered⟩

/-- What stands under a key. -/
abbrev valueAt (m : OrderedObject) {key : String} {v : Value} (h : m.fields.get? key = some v) :
    OrderedValue := ⟨v, Value.ordered_of_get? m.ordered h⟩

/-- What stands under a key, if it is an object. -/
abbrev objectAt (m : OrderedObject) {key : String} {fields : Fields}
    (h : m.fields.get? key = some (.object fields)) : OrderedObject :=
  ⟨fields, Value.ordered_of_get? m.ordered h⟩

/-- An object without fields. -/
abbrev empty : OrderedObject := ⟨[], by decide⟩

/-- An object with one field. -/
abbrev single (key : String) (v : OrderedValue) : OrderedObject where
  fields := [(key, v)]
  ordered := Value.ordered_object_iff.mpr
    ⟨List.pairwise_singleton _ _, List.forall_mem_singleton.mpr v.ordered⟩

/-- The object without one of its fields. -/
abbrev erase (m : OrderedObject) (key : String) : OrderedObject :=
  ⟨m.fields.erase key, Value.ordered_object_filter m.ordered _⟩

/-- The object with a value under a key, whatever was there before. -/
abbrev insert (m : OrderedObject) (key : String) (v : OrderedValue) : OrderedObject :=
  ⟨m.fields.insert key v, Value.ordered_object_insert m.ordered key v.ordered⟩

/-- The object with a value under a key, unless something is there already. -/
abbrev insertIfNew (m : OrderedObject) (key : String) (v : OrderedValue) : OrderedObject :=
  ⟨m.fields.insertIfNew key v, Value.ordered_object_insertIfNew m.ordered key v.ordered⟩

/-- One object on top of another. -/
abbrev overlay (lower upper : OrderedObject) : OrderedObject where
  fields := Value.overlayFields lower upper
  ordered := Value.ordered_overlayFields lower.ordered (Value.ordered_object_iff.mp upper.ordered).2

end OrderedObject

namespace OrderedValue

/-- A value is an object or it is none. -/
theorem object_or (v : OrderedValue) :
    (∃ m : OrderedObject, v = m.toValue) ∨ ∀ fields, v.value ≠ .object fields := by
  obtain ⟨v, ordered⟩ := v
  cases v with
  | object fields => exact .inl ⟨⟨fields, ordered⟩, rfl⟩
  | _ => exact .inr fun fields heq => nomatch heq

/-- One value on top of another. -/
abbrev overlay (below above : OrderedValue) : OrderedValue :=
  ⟨Value.overlay below above, Value.ordered_overlay below.ordered above.ordered⟩

/-- Two values merged under a common key. -/
abbrev overlayEntry (below above : OrderedValue) : OrderedValue :=
  ⟨Value.overlayEntry below above, Value.ordered_overlayEntry below.ordered above.ordered⟩

end OrderedValue

end CanTables.Document
