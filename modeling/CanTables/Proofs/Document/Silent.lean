import CanTables.Proofs.Document.Pile

/-!
# CanTables.Proofs.Document.Silent — values that differ by a null

An object that has null under a key and one that does not have the key say the same to whoever takes
null for nothing.  `SameBut` relates values that are the same but for that.  The relation survives
a layer that is put on top (`SameBut.overlay_below`); it survives being put on top of a layer only if
that layer says nothing under the key either, as null replaces what lies below it
(`SameBut.overlay_above`).
-/

namespace CanTables.Document.Value

/-- What stands under a key, null taken for nothing. -/
def spoken : Option Value → Option Value
  | some .null => none
  | o => o

theorem isPlain_null : IsPlain null := trivial

theorem spoken_eq_none_iff {o : Option Value} : spoken o = none ↔ o = none ∨ o = some .null := by
  unfold spoken
  split
  · simp
  · next hne => exact ⟨.inl, fun h => h.resolve_right hne⟩

theorem spoken_eq_some_iff {o : Option Value} {v : Value} :
    spoken o = some v ↔ o = some v ∧ v ≠ .null := by
  unfold spoken
  split
  · refine ⟨nofun, ?_⟩
    rintro ⟨heq, hne⟩
    exact absurd (Option.some.inj heq).symm hne
  · next hne =>
    refine ⟨?_, And.left⟩
    rintro rfl
    exact ⟨rfl, fun heq => hne (heq ▸ rfl)⟩

/-- Null is replaced by whatever is put on top of it. -/
theorem merge_spoken {o o' : Option Value} (h : spoken o = spoken o') (u : Value) :
    Option.merge overlayEntry o (some u) = Option.merge overlayEntry o' (some u) := by
  have hnone : ∀ {o : Option Value}, spoken o = none →
      Option.merge overlayEntry o (some u) = some u := by
    intro o ho
    rcases spoken_eq_none_iff.mp ho with rfl | rfl
    · rfl
    · rw [Option.merge_some_some, overlayEntry_of_plain isPlain_null]
  cases ho : spoken o with
  | none => rw [hnone ho, hnone (h ▸ ho)]
  | some v =>
    obtain ⟨rfl, -⟩ := spoken_eq_some_iff.mp ho
    obtain ⟨rfl, -⟩ := spoken_eq_some_iff.mp (h ▸ ho)
    rfl

/-- Over a layer that says nothing stands what the upper layer says. -/
theorem spoken_merge {o : Option Value} (silent : spoken o = none) (u : Option Value) :
    spoken (Option.merge overlayEntry o u) = spoken u := by
  rcases spoken_eq_none_iff.mp silent with rfl | rfl
  · rw [Option.merge_none_left]
  · cases u with
    | none => rfl
    | some v => rw [Option.merge_some_some, overlayEntry_of_plain isPlain_null]

/-- Two values that are the same, or two objects that are the same but for null under a key. -/
inductive SameBut (key : String) : Value → Value → Prop where
  | refl (v : Value) : SameBut key v v
  | objects {fields fields' : Fields} (rest : ∀ k, k ≠ key → fields.get? k = fields'.get? k)
      (under : spoken (fields.get? key) = spoken (fields'.get? key)) :
      SameBut key (.object fields) (.object fields')

namespace SameBut

variable {key : String} {x x' : OrderedValue}

theorem symm {v v' : Value} (h : SameBut key v v') : SameBut key v' v := by
  cases h with
  | refl => exact .refl v
  | objects rest under => exact .objects (fun k hk => (rest k hk).symm) under.symm

theorem insert_null (m : OrderedObject) (absent : m.fields.get? key = none) :
    SameBut key (.object m.fields) (.object (m.fields.insert key .null)) := by
  refine .objects (fun k hk => ?_) ?_
  · rw [m.keys_ordered.get?_insert, if_neg hk]
  · rw [m.keys_ordered.get?_insert, if_pos rfl, absent]
    rfl

/-- Two ordered values are the same, or they are two objects that are the same but for null. -/
theorem eq_or_objects (h : SameBut key x x') : x.value = x'.value ∨
    ∃ m m' : OrderedObject, x = m.toValue ∧ x' = m'.toValue ∧
      (∀ k, k ≠ key → m.fields.get? k = m'.fields.get? k) ∧
      spoken (m.fields.get? key) = spoken (m'.fields.get? key) := by
  obtain ⟨v, hv⟩ := x
  obtain ⟨v', hv'⟩ := x'
  dsimp only at h ⊢
  cases h with
  | refl => exact .inl rfl
  | @objects m m' rest under => exact .inr ⟨⟨m, hv⟩, ⟨m', hv'⟩, rfl, rfl, rest, under⟩

/-- What is put on top comes out the same. -/
theorem overlay_below (h : SameBut key x x') (above : OrderedValue) :
    SameBut key (overlay x above) (overlay x' above) := by
  rcases h.eq_or_objects with heq | ⟨m, m', rfl, rfl, rest, under⟩
  · rw [heq]
    exact .refl _
  · rcases above.object_or with ⟨upper, rfl⟩ | habove
    · refine .objects (fun k hk => ?_) ?_
      · rw [get?_overlayFields, get?_overlayFields, rest k hk]
      · rw [get?_overlayFields, get?_overlayFields]
        cases upper.fields.get? key with
        | none => rwa [Option.merge_none_right, Option.merge_none_right]
        | some u => rw [merge_spoken under u]
    · rw [overlay_not_object _ habove, overlay_not_object _ habove]
      exact .refl _

/-- What lies below comes out the same if it says nothing under the key. -/
theorem overlay_above (h : SameBut key x x') (below : OrderedValue)
    (silent : spoken (below.value.field? key) = none) :
    SameBut key (overlay below x) (overlay below x') := by
  rcases h.eq_or_objects with heq | ⟨m, m', rfl, rfl, rest, under⟩
  · rw [heq]
    exact .refl _
  · rcases below.object_or with ⟨lower, rfl⟩ | hbelow
    · have hsilent : spoken (lower.fields.get? key) = none := silent
      refine .objects (fun k hk => ?_) ?_
      · rw [get?_overlayFields, get?_overlayFields, rest k hk]
      · rw [get?_overlayFields, get?_overlayFields, spoken_merge hsilent, spoken_merge hsilent,
          under]
    · rw [overlay_of_not_object hbelow, overlay_of_not_object hbelow]
      exact .objects rest under

end SameBut

/-- Layers that say nothing under a key say nothing together. -/
theorem spoken_field?_overlay {key : String} (below above : OrderedValue)
    (silent : spoken (below.value.field? key) = none)
    (silent' : spoken (above.value.field? key) = none) :
    spoken ((overlay below above).field? key) = none := by
  rcases below.object_or with ⟨lower, rfl⟩ | hbelow
  · rcases above.object_or with ⟨upper, rfl⟩ | habove
    · have hsilent : spoken (lower.fields.get? key) = none := silent
      show spoken (Keyed.get? (overlayFields lower upper) key) = none
      rw [get?_overlayFields, spoken_merge hsilent]
      exact silent'
    · rw [overlay_not_object _ habove]
      exact silent'
  · rw [overlay_of_not_object hbelow]
    exact silent'

/-! ## Many layers -/

/-- Layers that say nothing under a key do so together. -/
theorem spoken_layered {key : String} {values : List OrderedValue}
    (silent : ∀ v ∈ values, spoken (v.value.field? key) = none) :
    ∀ v, layered (values.map OrderedValue.value) = some v → spoken (v.field? key) = none := by
  induction values using List.reverseRecOn with
  | nil => exact nofun
  | append_singleton below above ih =>
    intro v hv
    obtain ⟨sbelow, sabove⟩ := List.forall_mem_append.mp silent
    rw [List.forall_mem_singleton] at sabove
    rw [List.map_append, List.map_singleton, layered_concat, Option.some.injEq] at hv
    subst hv
    cases hlayers : layered (below.map OrderedValue.value) with
    | none => exact sabove
    | some w =>
      exact spoken_field?_overlay ⟨w, layered_ordered below w hlayers⟩ above
        (ih sbelow w hlayers) sabove

/-- One layer that differs by a null, over layers that say nothing there and under any others: what
they make up together differs by the null at most. -/
theorem SameBut.layered {key : String} {x x' : OrderedValue} (h : SameBut key x x')
    {below : List OrderedValue} (silent : ∀ v ∈ below, spoken (v.value.field? key) = none)
    (above : List OrderedValue) :
    Option.Rel (SameBut key) (layered ((below ++ x :: above).map OrderedValue.value))
      (layered ((below ++ x' :: above).map OrderedValue.value)) := by
  induction above using List.reverseRecOn with
  | nil =>
    rw [List.map_append, List.map_append, List.map_singleton, List.map_singleton, layered_concat,
      layered_concat]
    refine .some ?_
    cases hlayers : Value.layered (below.map OrderedValue.value) with
    | none => exact h
    | some w =>
      exact h.overlay_above ⟨w, layered_ordered below w hlayers⟩ (spoken_layered silent w hlayers)
  | append_singleton rest top ih =>
    have hv := layered_ordered (below ++ x :: rest)
    have hv' := layered_ordered (below ++ x' :: rest)
    have hsplit : ∀ y, (below ++ y :: (rest ++ [top])).map OrderedValue.value =
        (below ++ y :: rest).map OrderedValue.value ++ [top.value] := by
      intro y
      simp only [List.map_append, List.map_cons, List.map_nil, List.append_assoc, List.cons_append]
    rw [hsplit, hsplit, layered_concat, layered_concat]
    refine .some ?_
    generalize Value.layered ((below ++ x :: rest).map OrderedValue.value) = o at ih hv ⊢
    generalize Value.layered ((below ++ x' :: rest).map OrderedValue.value) = o' at ih hv' ⊢
    cases ih with
    | none => exact .refl _
    | @some v v' hsame =>
      lift v to OrderedValue using hv _ rfl
      lift v' to OrderedValue using hv' _ rfl
      exact hsame.overlay_below top

end CanTables.Document.Value
