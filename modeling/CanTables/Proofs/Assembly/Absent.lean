import CanTables.Proofs.Assembly.Layering
import CanTables.Proofs.Assembly.Layers
import CanTables.Proofs.Assembly.Stamp
import CanTables.Proofs.Document.Silent
import CanTables.Proofs.Store.Edited

/-!
# CanTables.Proofs.Assembly.Absent — null in place of an absent attribute

An attribute that is null says nothing, and one that is absent says nothing either.  But the stamp
of a mapping's reference goes by keys: it fills in what is absent and leaves null alone.  So null in
place of an absent attribute cannot be noticed in the assembled set as long as the reference stamps
nothing there; where it does stamp, the object loses what the stamp says
(`Catalog.assemble_of_addsNull`).
-/

namespace CanTables

open Declaration Document Positions Schema Value

/-! ## What null says -/

/-- Signals are no attribute that an object says something about; it says it signal by signal. -/
theorem Call.attributes_signals {key : String} {v : Value} :
    Call.attributes (key, v) .signals = none := by
  show (Keyed.get? (Keyed.erase _ "signals") "signals").bind _ = none
  rw [Keyed.get?_erase, if_pos rfl, Option.bind_none]

theorem Document.Value.sameBut_object_iff {key : String} {fields fields' : Fields} :
    SameBut key (object fields) (object fields') ↔
      (∀ k, k ≠ key → fields.get? k = fields'.get? k) ∧
        spoken (fields.get? key) = spoken (fields'.get? key) := by
  constructor
  · intro h
    cases h with
    | refl => exact ⟨fun _ _ => rfl, rfl⟩
    | objects rest under => exact ⟨rest, under⟩
  · rintro ⟨rest, under⟩
    exact .objects rest under

theorem Declaration.MessageAttribute.attribute?_key (a : MessageAttribute) :
    Layer.attribute? (Record.key a) = some a := by
  cases a <;> rfl

theorem Declaration.MessageAttribute.readAttribute_null {a : MessageAttribute} (ha : a ≠ .signals) :
    Layer.readAttribute a .null = .ok none := by
  cases a <;> first | rfl | exact absurd rfl ha

/-- What is read from a field is what is read from what it speaks. -/
theorem Declaration.MessageAttribute.bind_readAttribute {a : MessageAttribute} (ha : a ≠ .signals)
    (o : Option Value) : (o.bind fun v => (Layer.readAttribute a v).toOption.join) =
      (spoken o).bind fun v => (Layer.readAttribute a v).toOption.join := by
  unfold spoken
  split
  · rw [Option.bind_some, readAttribute_null ha]
    rfl
  · rfl

namespace Statement

variable {key : String} {a : MessageAttribute} {fields fields' : Fields} {m' : OrderedObject}

theorem signals_ne_key (ha : a ≠ .signals) : "signals" ≠ Record.key a := by
  cases a <;> first | exact absurd rfl ha | decide

/-- A field of the second object is null under the key or a field of the first object. -/
theorem mem_of_sameBut {key : String} (h : SameBut key (.object fields) (.object m'))
    {entry : String × Value} (hmem : entry ∈ m'.fields) :
    entry = (key, .null) ∨ entry ∈ fields := by
  obtain ⟨rest, under⟩ := sameBut_object_iff.mp h
  obtain ⟨k, v⟩ := entry
  have hget := m'.keys_ordered.get?_eq_some_iff.mpr hmem
  by_cases hk : k = key
  · subst hk
    by_cases hnull : v = .null
    · exact .inl (by rw [hnull])
    · have hspoken := under.trans (spoken_eq_some_iff.mpr ⟨hget, hnull⟩)
      exact .inr (Keyed.mem_of_get?_eq_some (spoken_eq_some_iff.mp hspoken).1)
  · exact .inr (Keyed.mem_of_get?_eq_some ((rest k hk).trans hget))

theorem attributes_of_sameBut (ha : a ≠ .signals)
    (h : SameBut (Record.key a) (.object fields) (.object fields')) :
    (Layer.ofFields (Keyed.erase fields "signals") : MessageLayer) =
      Layer.ofFields (Keyed.erase fields' "signals") := by
  obtain ⟨rest, under⟩ := sameBut_object_iff.mp h
  funext b
  rw [Layer.ofFields, Layer.ofFields, Keyed.get?_erase, Keyed.get?_erase]
  by_cases hb : Record.key b = Record.key a
  · have hba : b = a := Option.some.inj (b.attribute?_key.symm.trans (hb ▸ a.attribute?_key))
    subst hba
    rw [if_neg (signals_ne_key ha).symm, if_neg (signals_ne_key ha).symm,
      MessageAttribute.bind_readAttribute ha, under, ← MessageAttribute.bind_readAttribute ha]
  · rw [rest _ hb]

/-- Objects that are the same but for null under an attribute's key are accepted alike and say the
same. -/
theorem ofFields_of_sameBut {id : UInt32} (ha : a ≠ .signals)
    (h : SameBut (Record.key a) (.object fields) (.object m')) {said : Statement}
    (hsaid : ofFields key id fields = .ok said) : ofFields key id m' = .ok said := by
  obtain ⟨⟨⟩, hkeys, hsaid⟩ := Except.bind_eq_ok_iff.mp hsaid
  obtain ⟨attributes, hattributes, hsaid⟩ := Except.bind_eq_ok_iff.mp hsaid
  obtain ⟨hfits, -, rfl⟩ := Layer.read_object_eq_ok_iff.mp (readRecord_eq_ok_iff.mp hattributes)
  have hkeys' : checkKeys .message (Layer.knownKeys MessageAttribute) key key m' = .ok () := by
    refine checkKeys_eq_ok_iff.mpr fun entry hentry => ?_
    rcases mem_of_sameBut h hentry with rfl | hmem
    · exact List.mem_map_of_mem (List.mem_of_find?_eq_some a.attribute?_key)
    · exact checkKeys_eq_ok_iff.mp hkeys entry hmem
  have hfits' : ∀ entry ∈ Keyed.erase m'.fields "signals",
      Layer.checkField MessageAttribute entry = .ok () := by
    intro entry hentry
    obtain ⟨hmem, hne⟩ := List.mem_filter.mp hentry
    rcases mem_of_sameBut h hmem with rfl | hmem
    · rw [Layer.checkField, a.attribute?_key]
      show (Layer.readAttribute a .null).map _ = _
      rw [MessageAttribute.readAttribute_null ha]
      rfl
    · exact hfits entry (List.mem_filter.mpr ⟨hmem, hne⟩)
  have hcomplete : Layer.checkComplete MessageAttribute (Keyed.erase m'.fields "signals") = .ok () :=
    Layer.checkComplete_eq_ok_iff.mpr fun _ _ hrequired => nomatch hrequired
  refine Except.bind_eq_ok_iff.mpr ⟨(), hkeys', ?_⟩
  refine Except.bind_eq_ok_iff.mpr ⟨Layer.ofFields (Keyed.erase fields "signals"), ?_, ?_⟩
  · exact readRecord_eq_ok_iff.mpr
      (Layer.read_object_eq_ok_iff.mpr ⟨hfits', hcomplete, attributes_of_sameBut ha h⟩)
  · rw [← (sameBut_object_iff.mp h).1 _ (signals_ne_key ha)]
    exact hsaid

/-- The stamp keeps that, if it stamps nothing under the key. -/
theorem read_stamp_of_sameBut {r : MappingReference} (ha : a ≠ .signals)
    (hr : r.defaults a = none) {x x' : OrderedValue} (h : SameBut (Record.key a) x x')
    {said : Option Statement} (hsaid : read key (r.stamp x) = .ok said) :
    read key (r.stamp x') = .ok said := by
  rcases h.eq_or_objects with heq | ⟨m, m', rfl, rfl, rest, under⟩
  · rwa [← heq]
  · rw [MappingReference.stamp_object] at hsaid ⊢
    obtain ⟨id, hid, hsaid⟩ := Except.bind_eq_ok_iff.mp hsaid
    obtain ⟨statement, hstatement, hsaid⟩ := Except.bind_eq_ok_iff.mp hsaid
    have hstamped : SameBut (Record.key a) (.object (r.stampFields m))
        (.object (r.stampObject m')) := by
      refine sameBut_object_iff.mpr ⟨fun k hk => ?_, ?_⟩
      · rw [MappingReference.get?_stampFields m.entries,
          MappingReference.get?_stampFields m'.entries, rest k hk]
      · rw [MappingReference.get?_stampFields m.entries,
          MappingReference.get?_stampFields m'.entries,
          MappingReference.stamped_eq_none_iff.mpr hr, Option.or_none, Option.or_none, under]
    exact Except.bind_eq_ok_iff.mpr ⟨id, hid, Except.bind_eq_ok_iff.mpr
      ⟨statement, ofFields_of_sameBut ha hstamped hstatement, hsaid⟩⟩

end Statement

/-- The statement without what it says about an attribute. -/
def Statement.silencing (said : Statement) (a : MessageAttribute) : Statement :=
  { said with attributes := Function.update said.attributes a none }

theorem Statement.silencing_eq_self_iff {said : Statement} {a : MessageAttribute} :
    said.silencing a = said ↔ said.attributes a = none := by
  obtain ⟨id, attributes, signals⟩ := said
  rw [silencing, Statement.mk.injEq]
  constructor
  · rintro ⟨-, heq, -⟩
    rw [← heq]
    exact Function.update_self a none attributes
  · intro hnone
    exact ⟨rfl, Function.update_eq_self_iff.mpr hnone.symm, rfl⟩

/-- With null in place of the attribute, a stamped object is silent about it. -/
theorem Call.said_stamp_insert_null (r : MappingReference) (key : String)
    (m : OrderedKeyed String Value) {a : MessageAttribute} (ha : a ≠ .signals) :
    Call.said (key, r.stamp (.object (m.insert (Record.key a) .null))) =
      (Call.said (key, r.stamp (.object m))).silencing a := by
  let nulled := m.insert (Record.key a) .null
  have hattributes : Call.attributes (key, r.stamp (.object nulled)) =
      Function.update (Call.attributes (key, r.stamp (.object m))) a none := by
    funext b
    by_cases hba : b = a
    · subst hba
      rw [Function.update_self, r.attributes_stamp nulled key ha, m.ordered.get?_insert,
        if_pos rfl, Option.map_some, MessageAttribute.readAttribute_null ha]
      rfl
    · rw [Function.update_of_ne hba]
      by_cases hb : b = .signals
      · subst hb
        rw [Call.attributes_signals, Call.attributes_signals]
      · have hkey : Record.key b ≠ Record.key a := fun heq =>
          hba (Option.some.inj (b.attribute?_key.symm.trans (heq ▸ a.attribute?_key)))
        rw [r.attributes_stamp nulled key hb, r.attributes_stamp m key hb,
          m.ordered.get?_insert, if_neg hkey]
  have hsignals : Call.signals (key, r.stamp (.object nulled)) =
      Call.signals (key, r.stamp (.object m)) := by
    have hget : (r.stampFields nulled).get? "signals" = (r.stampFields m).get? "signals" := by
      rw [MappingReference.get?_stampFields nulled, MappingReference.get?_stampFields m,
        m.ordered.get?_insert, if_neg (Statement.signals_ne_key ha)]
    rw [MappingReference.stamp_object, MappingReference.stamp_object, Call.signals, Call.signals]
    show List.filterMap _ ((((r.stampFields _).get? "signals").bind _).getD []) = _
    rw [hget]
    rfl
  show Call.said (key, r.stamp (.object nulled)) = _
  rw [Call.said, Call.said, Statement.silencing, hattributes, hsignals]
  rfl

/-- The second call is accepted where the first one is, and says the same. -/
def Call.Repeats (call call' : Call) : Prop :=
  call.1 = call'.1 ∧
    ∀ said, Statement.read call.1 call.2 = .ok said → Statement.read call'.1 call'.2 = .ok said

theorem Drafts.foldlM_add_of_repeats {calls calls' : List Call}
    (h : List.Forall₂ Call.Repeats calls calls') {drafts drafts' : Drafts}
    (hadd : calls.foldlM add drafts = .ok drafts') : calls'.foldlM add drafts = .ok drafts' := by
  induction h generalizing drafts with
  | nil => exact hadd
  | @cons call call' rest rest' hcall _ ih =>
    rw [List.foldlM_cons] at hadd ⊢
    obtain ⟨next, hnext, hrest⟩ := Except.bind_eq_ok_iff.mp hadd
    obtain ⟨said, hsaid, hnext⟩ := Except.bind_eq_ok_iff.mp hnext
    refine Except.bind_eq_ok_iff.mpr ⟨next, ?_, ih hrest⟩
    exact Except.bind_eq_ok_iff.mpr ⟨said, hcall.2 said hsaid, hnext⟩

/-! ## Files with null in place of an absent attribute -/

/-- The second messages have null under the key of an attribute that one message object lacks.  Null
hides what lies below it, so the smaller spellings of that message's identifier must not speak of
the attribute. -/
def AddsNull (a : MessageAttribute) (m m' : Fields) : Prop :=
  ∃ (key : String) (fields : Fields), m.get? key = some (.object fields) ∧
    fields.get? (Record.key a) = none ∧
    m' = m.insert key (.object (fields.insert (Record.key a) .null)) ∧
    ∀ other v, m.get? other = some v → other < key →
      Identifier.parse? other = Identifier.parse? key → spoken (v.field? (Record.key a)) = none

/-- Messages of which each identifier's make up the same but for null under a key. -/
structure SameButUnder (key : String) (m m' : Fields) : Prop where
  identifiers : (∀ entry ∈ m, ∃ id, Identifier.parse? entry.1 = some id) ↔
    ∀ entry ∈ m', ∃ id, Identifier.parse? entry.1 = some id
  alike : ∀ id, Option.Rel (SameBut key) (layered ((spelled id m).map Prod.snd))
    (layered ((spelled id m').map Prod.snd))

theorem SameButUnder.symm {key : String} {m m' : Fields} (h : SameButUnder key m m') :
    SameButUnder key m' m where
  identifiers := h.identifiers.symm
  alike := by
    intro id
    have hlayered := h.alike id
    generalize layered ((spelled id m).map Prod.snd) = o at hlayered ⊢
    generalize layered ((spelled id m').map Prod.snd) = o' at hlayered ⊢
    cases hlayered with
    | none => exact .none
    | some same => exact .some same.symm

theorem SameButUnder.refl (key : String) (m : Fields) : SameButUnder key m m where
  identifiers := Iff.rfl
  alike := by
    intro id
    cases layered ((spelled id m).map Prod.snd) with
    | none => exact .none
    | some v => exact .some (.refl v)

/-- One entry that differs by a null, over entries that say nothing there and under any others of an
object: what the values make up together differs by the null at most. -/
theorem Document.Value.SameBut.layered_entries {key k : String} {x x' : OrderedValue}
    (h : SameBut key x x') (m : OrderedObject) {below above : Fields} (hbelow : below ⊆ m.fields)
    (habove : above ⊆ m.fields) (silent : ∀ entry ∈ below, spoken (entry.2.field? key) = none) :
    Option.Rel (SameBut key) (Value.layered ((below ++ (k, x.value) :: above).map Prod.snd))
      (Value.layered ((below ++ (k, x'.value) :: above).map Prod.snd)) := by
  have hlower := m.values_of_subset hbelow
  have hupper := m.values_of_subset habove
  have hsilent : ∀ v ∈ below.map Prod.snd, spoken (v.field? key) = none :=
    List.forall_mem_map.mpr silent
  rw [List.map_append, List.map_append, List.map_cons, List.map_cons]
  generalize below.map Prod.snd = lower at hlower hsilent ⊢
  generalize above.map Prod.snd = upper at hupper ⊢
  lift lower to List OrderedValue using hlower
  lift upper to List OrderedValue using hupper
  have hlayered := h.layered (List.forall_mem_map.mp hsilent) upper
  rwa [List.map_append, List.map_append, List.map_cons, List.map_cons] at hlayered

theorem AddsNull.sameButUnder {a : MessageAttribute} {m : OrderedObject} {m' : Fields}
    (h : AddsNull a m m') : SameButUnder (Record.key a) m m' := by
  obtain ⟨key, fields, hget, habsent, rfl, silent⟩ := h
  obtain ⟨before, after, hsplit, hbefore, hinsert⟩ := m.keys_ordered.exists_split hget
  have hlower : before ⊆ m.fields := hsplit ▸ List.subset_append_left _ _
  have hupper : after ⊆ m.fields := by
    rw [hsplit]
    exact List.Subset.trans (List.subset_cons_self _ _) (List.subset_append_right _ _)
  rw [hinsert, hsplit]
  refine ⟨?_, fun id => ?_⟩
  · simp only [List.forall_mem_append, List.forall_mem_cons]
  · rw [spelled, spelled, List.filter_append, List.filter_append, List.filter_cons,
      List.filter_cons]
    by_cases hid : Identifier.parse? key = some id
    · rw [if_pos (decide_eq_true hid), if_pos (decide_eq_true hid)]
      let nulled := (m.objectAt hget).insert (Record.key a) ⟨.null, trivial⟩
      have hsame : SameBut (Record.key a) (m.objectAt hget).toValue nulled.toValue :=
        SameBut.insert_null (m.objectAt hget) habsent
      apply hsame.layered_entries m
      · exact fun entry hentry => hlower (List.mem_filter.mp hentry).1
      · exact fun entry hentry => hupper (List.mem_filter.mp hentry).1
      · rintro ⟨other, w⟩ hentry
        obtain ⟨hmem, hspells⟩ := List.mem_filter.mp hentry
        apply silent other w (m.keys_ordered.get?_eq_some_iff.mpr (hlower hmem)) (hbefore _ hmem)
        exact (of_decide_eq_true hspells).trans hid.symm
    · rw [if_neg (by simpa using hid), if_neg (by simpa using hid)]
      have hsame := (SameButUnder.refl (Record.key a) (before ++ after)).alike id
      rwa [spelled, List.filter_append] at hsame

/-- Under canonical keys, too, the messages are the same but for null. -/
theorem SameButUnder.canonicalKeys {key : String} {m m' canonical : Fields}
    (h : SameButUnder key m m') (hcanonical : canonicalKeys m = .ok canonical) :
    ∃ canonical', CanTables.canonicalKeys m' = .ok canonical' ∧
      List.Forall₂ (fun entry entry' => entry.1 = entry'.1 ∧ SameBut key entry.2 entry'.2)
        canonical canonical' := by
  have hm := canonicalKeys_eq_ok_iff.mp hcanonical
  obtain ⟨canonical', hcanonical'⟩ :=
    exists_foldlM_addCanonical [] (h.identifiers.mp hm.identifiers)
  have hm' := canonicalKeys_eq_ok_iff.mp hcanonical'
  refine ⟨canonical', hcanonical', Keyed.forall₂_of_get? hm.ordered hm'.ordered fun k => ?_⟩
  by_cases hk : ∃ id, k = Identifier.key id
  · obtain ⟨id, rfl⟩ := hk
    rw [hm.get?_key, hm'.get?_key]
    exact h.alike id
  · have habsent : canonical.get? k = none :=
      Keyed.get?_eq_none_iff.mpr fun hmem => hk (hm.keys k hmem)
    have habsent' : canonical'.get? k = none :=
      Keyed.get?_eq_none_iff.mpr fun hmem => hk (hm'.keys k hmem)
    rw [habsent, habsent']
    exact .none

end CanTables
