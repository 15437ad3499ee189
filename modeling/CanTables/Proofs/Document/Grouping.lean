import CanTables.Proofs.Document.Path

/-!
# CanTables.Proofs.Document.Grouping — in which groups layers are merged

Of three layers the upper two may be merged first, or the lower two.  The layer in the middle can
make a difference: where it has a scalar, the array above it is not appended to the array below it,
but is if the upper two are merged without looking below.  That is the only way in which the groups
matter: they do not for any lower layer exactly if the middle layer is `Transparent` for the upper
one (`overlay_assoc_iff`).

Layers that are consistent are, and what they make up is consistent with each of them again, so
they can be merged in any groups, with layers that say nothing among them.
-/

namespace CanTables.Document.Value

/-! ## Layers that say nothing -/

theorem overlay_object_nil_left (m : OrderedObject) :
    overlay (.object []) m.toValue = m.toValue :=
  congrArg object (overlayFields_nil m)

theorem overlay_object_nil_right (m : Fields) :
    overlay (.object m) (.object []) = .object m := by
  rw [overlay_object, overlayFields]

/-! ## Consistency of what is merged -/

theorem SameKind.refl (v : Value) : SameKind v v := by
  cases v with
  | array xs => exact .array xs xs
  | object m => exact .object m m
  | _ => exact .plain trivial trivial

theorem Consistent.refl (v : Value) : Consistent v v := by
  intro path x y hx hy
  obtain rfl : x = y := Option.some.inj (hx.symm.trans hy)
  exact .refl x

theorem Consistent.symm {v w : Value} (h : Consistent v w) : Consistent w v :=
  h.oneKind.symm.consistent

/-- Two objects that are consistent with a value make up one that is. -/
theorem consistent_overlay {a b : OrderedObject} {v : Value} (hav : Consistent a.toValue v)
    (hbv : Consistent b.toValue v) : Consistent (a.overlay b).toValue v := by
  show Consistent (overlay a.toValue b.toValue) v
  rw [overlay_eq_overlayEntry ⟨a, rfl⟩ ⟨b, rfl⟩]
  exact (OneKind.merge hav.oneKind hbv.oneKind).consistent

/-! ## Three layers -/

/-- Over a layer that hides nothing from the upper one, the groups do not matter. -/
theorem overlay_assoc_of_transparent (a : OrderedObject) {b c : OrderedObject}
    (h : Transparent b.toValue c.toValue) :
    overlay (overlay a.toValue b.toValue) c.toValue =
      overlay a.toValue (overlay b.toValue c.toValue) := by
  have hassoc := h.overlayEntry_assoc a.toValue (b := b.toValue) (c := c.toValue)
  simp only [overlayEntry_object] at hassoc
  exact hassoc

/-- If the groups do not matter for a layer with one field, they do not for what it has there. -/
theorem overlayEntry_assoc_of_singleton {b c : OrderedObject} {key : String} {a : OrderedValue}
    {x y : Value} (hx : b.fields.get? key = some x) (hy : c.fields.get? key = some y)
    (h : overlayFields (overlayFields [(key, a.value)] b) c =
      overlayFields [(key, a.value)] (overlayFields b c)) :
    overlayEntry (overlayEntry a x) y = overlayEntry a (overlayEntry x y) := by
  have hget : (OrderedObject.single key a).fields.get? key = some a.value := if_pos rfl
  have heq := congrArg (Keyed.get? · key) h
  simp only [get?_overlayFields ((OrderedObject.single key a).overlay b) c,
    get?_overlayFields (OrderedObject.single key a) b,
    get?_overlayFields (OrderedObject.single key a) (b.overlay c), get?_overlayFields b c, hget, hx,
    hy, Option.merge_some_some, Option.some.injEq] at heq
  exact heq

theorem exists_longer (texts : List String) : ∃ size, ∀ text ∈ texts, text.length < size := by
  induction texts with
  | nil => exact ⟨0, fun _ hmem => absurd hmem List.not_mem_nil⟩
  | cons first rest ih =>
    obtain ⟨size, hsize⟩ := ih
    refine ⟨max size (first.length + 1), List.forall_mem_cons.mpr ⟨?_, fun text hmem => ?_⟩⟩
    · exact Nat.lt_of_lt_of_le (Nat.lt_succ_self _) (Nat.le_max_right _ _)
    · exact Nat.lt_of_lt_of_le (hsize text hmem) (Nat.le_max_left _ _)

/-- There is a key that a layer does not have. -/
theorem exists_notMem_keys (fields : Fields) : ∃ key, key ∉ fields.keys := by
  obtain ⟨size, hsize⟩ := exists_longer fields.keys
  refine ⟨String.ofList (.replicate size 'x'), fun hmem => ?_⟩
  have hless := hsize _ hmem
  rw [String.length_ofList, List.length_replicate] at hless
  exact Nat.lt_irrefl size hless

/-- Under an array, a value that is no array hides an item that lies below. -/
theorem exists_array_of_overlayEntry_assoc {b : Value} {zs : List Value}
    (h : overlayEntry (overlayEntry (.array [.null]) b) (.array zs) =
      overlayEntry (.array [.null]) (overlayEntry b (.array zs))) : ∃ ys, b = .array ys := by
  by_contra harray
  have hover : overlayEntry b (.array zs) = .array zs := by
    apply overlayEntry_of_not_merging
    · exact fun ⟨ys, _, heq, _⟩ => harray ⟨ys, heq⟩
    · exact fun ⟨_, _, _, heq⟩ => nomatch heq
  have hunder : overlayEntry (.array [.null]) b = b := by
    apply overlayEntry_of_not_merging
    · exact fun ⟨_, ys, _, heq⟩ => harray ⟨ys, heq⟩
    · exact fun ⟨_, _, heq, _⟩ => nomatch heq
  rw [hunder, hover, overlayEntry, array.injEq] at h
  exact List.cons_ne_self _ zs h.symm

/-- Under an object, a value that is no object hides a field that lies below. -/
theorem isObject_of_overlayEntry_assoc {b : Value} {l : OrderedObject} {key : String}
    (hkey : key ∉ l.fields.keys)
    (h : overlayEntry (overlayEntry (.object [(key, .null)]) b) l.toValue =
      overlayEntry (.object [(key, .null)]) (overlayEntry b l.toValue)) : b.IsObject := by
  by_contra hobject
  have hover : overlayEntry b (.object l) = .object l :=
    overlayEntry_of_not_object (not_exists.mp hobject) l
  have hunder : overlayEntry (.object [(key, .null)]) b = b :=
    overlayEntry_not_object _ (not_exists.mp hobject)
  rw [hunder, hover, overlayEntry_object, object.injEq] at h
  apply hkey
  rw [h, mem_keys_overlayFields (.single key ⟨.null, trivial⟩) l]
  exact .inl List.mem_cons_self

/-- A value for which the groups do not matter, whatever lies below, hides nothing from the value
above it. -/
theorem Transparent.of_overlayEntry_assoc {b c : OrderedValue}
    (h : ∀ a : OrderedValue, overlayEntry (overlayEntry a b) c = overlayEntry a (overlayEntry b c)) :
    Transparent b c := by
  induction hsize : sizeOf c.value using Nat.strongRecOn generalizing b c with
  | ind size ih =>
    rcases c with ⟨c, hc⟩
    cases c with
    | array zs =>
      obtain ⟨ys, hb⟩ := exists_array_of_overlayEntry_assoc (h ⟨.array [.null], by decide⟩)
      rw [hb]
      exact .array ys zs
    | object l =>
      let l : OrderedObject := ⟨l, hc⟩
      obtain ⟨key, hkey⟩ := exists_notMem_keys l.fields
      rcases b.object_or with ⟨n, rfl⟩ | hnot
      · refine .object fun key x y hx hy => ?_
        have hless : sizeOf y < size := hsize ▸ sizeOf_lt_of_get? hy
        apply ih (sizeOf y) hless (b := n.valueAt hx) (c := l.valueAt hy) _ rfl
        intro a
        have hfield := h (OrderedObject.single key a).toValue
        simp only [overlayEntry_object, object.injEq] at hfield
        exact overlayEntry_assoc_of_singleton (b := n) (c := l) hx hy hfield
      · have hfield := h (OrderedObject.single key ⟨.null, trivial⟩).toValue
        obtain ⟨n, hn⟩ := isObject_of_overlayEntry_assoc (l := l) hkey hfield
        exact absurd hn (hnot n)
    | _ => exact .plain trivial

/-- Which of three layers are merged first does not matter for any lowest layer exactly if the one
in the middle hides nothing from the uppermost. -/
theorem overlay_assoc_iff (b c : OrderedObject) :
    (∀ a : OrderedObject, overlay (overlay a.toValue b.toValue) c.toValue =
      overlay a.toValue (overlay b.toValue c.toValue)) ↔
    Transparent b.toValue c.toValue := by
  constructor
  · intro h
    refine .object fun key x y hx hy => ?_
    apply Transparent.of_overlayEntry_assoc (b := b.valueAt hx) (c := c.valueAt hy)
    intro a
    have hfield := h (.single key a)
    simp only [overlay_object, object.injEq] at hfield
    exact overlayEntry_assoc_of_singleton hx hy hfield
  · intro h a
    exact overlay_assoc_of_transparent a h

/-- A `null` between two arrays hides the lower one, unless the upper two are merged first. -/
example :
    let below := object [("loopers", .array [.text "poll"])]
    let middle := object [("loopers", .null)]
    let above := object [("loopers", .array [.text "blink"])]
    overlay (overlay below middle) above = object [("loopers", .array [.text "blink"])] ∧
      overlay below (overlay middle above) =
        object [("loopers", .array [.text "poll", .text "blink"])] := by
  constructor <;> rfl

/-- Objects that are consistent two by two may be merged in any groups: the result is the same, it
is consistent with each of them, and objects without fields change nothing. -/
theorem overlay_assoc_of_consistent {a b c : Fields} (ha : (object a).Ordered)
    (hb : (object b).Ordered) (hc : (object c).Ordered)
    (hab : Consistent (.object a) (.object b)) (hac : Consistent (.object a) (.object c))
    (hbc : Consistent (.object b) (.object c)) :
    overlay (overlay (.object a) (.object b)) (.object c) =
      overlay (.object a) (overlay (.object b) (.object c)) ∧
    (∀ v ∈ [Value.object a, .object b, .object c],
      Consistent (overlay (overlay (.object a) (.object b)) (.object c)) v ∧
      Consistent (overlay (.object a) (overlay (.object b) (.object c))) v) ∧
    ∀ m : Fields, (object m).Ordered →
      overlay (.object []) (.object m) = .object m ∧
      overlay (.object m) (.object []) = .object m := by
  let a : OrderedObject := ⟨a, ha⟩
  let b : OrderedObject := ⟨b, hb⟩
  let c : OrderedObject := ⟨c, hc⟩
  have hassoc := overlay_assoc_of_transparent a (b := b) (c := c) hbc.oneKind.transparent
  refine ⟨hassoc, fun v hv => ?_, fun m hm => ?_⟩
  · rw [hassoc, and_self]
    -- Each of the three is consistent with all three.
    have heach : Consistent (.object a) v ∧ Consistent (.object b) v ∧
        Consistent (.object c) v := by
      simp only [List.mem_cons, List.not_mem_nil, or_false] at hv
      rcases hv with rfl | rfl | rfl
      · exact ⟨.refl _, hab.symm, hac.symm⟩
      · exact ⟨hab, .refl _, hbc.symm⟩
      · exact ⟨hac, hbc, .refl _⟩
    obtain ⟨hav, hbv, hcv⟩ := heach
    have hupper := consistent_overlay (a := b) (b := c) hbv hcv
    exact consistent_overlay (a := a) (b := b.overlay c) hav hupper
  · exact ⟨overlay_object_nil_left ⟨m, hm⟩, overlay_object_nil_right m⟩

/-- A layer with the speed of a bus and a function that is called in every round. -/
def speedLayer : Fields :=
  [("buses", .object [("hs", .object [("speed", .int 500000)])]),
    ("loopers", .array [.text "poll"])]

/-- A layer that adds a function. -/
def loopLayer : Fields := [("loopers", .array [.text "blink"])]

/-- A layer that attaches the bus to a controller and adds a function. -/
def controllerLayer : Fields :=
  [("buses", .object [("hs", .object [("controller", .int 1)])]),
    ("loopers", .array [.text "idle"])]

theorem overlay_assoc_speed_loop_controller :
    ((object speedLayer).Ordered ∧ (object loopLayer).Ordered ∧
      (object controllerLayer).Ordered ∧
      Consistent (.object speedLayer) (.object loopLayer) ∧
      Consistent (.object speedLayer) (.object controllerLayer) ∧
      Consistent (.object loopLayer) (.object controllerLayer)) ∧
    overlay (overlay (.object speedLayer) (.object loopLayer)) (.object controllerLayer) =
      overlay (.object speedLayer) (overlay (.object loopLayer) (.object controllerLayer)) ∧
    Consistent
      (overlay (overlay (.object speedLayer) (.object loopLayer)) (.object controllerLayer))
      (.object loopLayer) := by
  have hspeed : (object speedLayer).Ordered := by decide
  have hloop : (object loopLayer).Ordered := by decide
  have hcontroller : (object controllerLayer).Ordered := by decide
  have h₁ : Consistent (.object speedLayer) (.object loopLayer) :=
    (OneKind.of_isOneKind (by decide +kernel)).consistent
  have h₂ : Consistent (.object speedLayer) (.object controllerLayer) :=
    (OneKind.of_isOneKind (by decide +kernel)).consistent
  have h₃ : Consistent (.object loopLayer) (.object controllerLayer) :=
    (OneKind.of_isOneKind (by decide +kernel)).consistent
  obtain ⟨hassoc, hconsistent, -⟩ :=
    overlay_assoc_of_consistent hspeed hloop hcontroller h₁ h₂ h₃
  have hmem : object loopLayer ∈
      [Value.object speedLayer, .object loopLayer, .object controllerLayer] :=
    List.mem_cons_of_mem _ List.mem_cons_self
  exact ⟨⟨hspeed, hloop, hcontroller, h₁, h₂, h₃⟩, hassoc, (hconsistent _ hmem).1⟩

end CanTables.Document.Value
