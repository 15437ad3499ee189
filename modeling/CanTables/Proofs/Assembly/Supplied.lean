import CanTables.Proofs.Assembly.Layering
import CanTables.Proofs.Schema.Part

/-!
# CanTables.Proofs.Assembly.Supplied — what an accepted layer leaves in the drafts

A layer of a message supplies a value for an attribute if it gives one that is not null, whether it
is written as an object or as an array; and so for the attributes of its signals.  A draft carries a
layer if it has every value that the layer supplies.

An accepted layer that is an object is taken in by one draft of its identifier, which then carries
it and is otherwise as it was (`Drafts.takesIn_of_object`).  A layer that is written as an array is
checked just as well and then changes nothing (`Drafts.add_not_object`): what it supplies is in the
drafts only if it was there before.
-/

namespace CanTables

open Declaration Document Positions Schema Value

/-! ## What a layer supplies -/

namespace Schema.Layer

variable {A : Type} [Record A]

/-- A record gives a value for an attribute, and it is not null. -/
def Supplies (raw : Value) (a : A) (x : Record.Carrier a) : Prop :=
  ∃ v, part? a raw = some v ∧ v ≠ .null ∧ Record.read a v = .ok x

/-- A record that is read has the values that it supplies. -/
theorem read_eq_some_iff {raw : Value} {layer : Layer A} (h : read raw = .ok layer) {a : A}
    (known : attribute? (Record.key a) = some a) (nullable : Record.nullable a = true)
    {x : Record.Carrier a} : layer a = some x ↔ Supplies raw a x := by
  obtain ⟨habsent, hgiven⟩ := read_part h known
  constructor
  · intro hx
    cases hpart : part? a raw with
    | none =>
      rw [habsent hpart] at hx
      cases hx
    | some v =>
      have hread := (hgiven v hpart).trans (congrArg _ hx)
      refine ⟨v, hpart, ?_, readAttribute_eq_some hread⟩
      rintro rfl
      rw [readAttribute, if_pos nullable] at hread
      cases hread
  · rintro ⟨v, hpart, hne, hread⟩
    have hlayer := hgiven v hpart
    rw [readAttribute_of_ne_null hne, hread] at hlayer
    exact (Except.ok.inj hlayer).symm

end Schema.Layer

/-- A layer of a message supplies a value for an attribute of a signal. -/
def SuppliesSignal (raw : Value) (name : String) (a : SignalAttribute) (x : Record.Carrier a) :
    Prop :=
  ∃ entries v, Layer.part? MessageAttribute.signals raw = some (.object entries) ∧
    Keyed.get? entries name = some v ∧ Layer.Supplies v a x

namespace Statement

variable {key : String} {fields : Fields} {said : Statement}

/-- A statement has the attributes that its object supplies. -/
theorem attributes_eq_some_iff (h : read key (.object fields) = .ok (some said))
    {a : MessageAttribute} (ha : a ≠ .signals) {x : Record.Carrier a} :
    said.attributes a = some x ↔ Layer.Supplies (.object fields) a x := by
  have hattributes : said.attributes = Call.attributes (key, .object fields) :=
    Layer.read_object (read_object_eq_ok_iff.mp h).2.1
  rw [hattributes]
  exact Call.attributes_eq_some_iff ha

/-- What the fields for signals hold under a name is what the object supplies for that signal. -/
theorem SignalFields.suppliesSignal_iff {entries : Fields} (h : SignalFields fields entries)
    {name : String} {a : SignalAttribute} {x : Record.Carrier a} :
    SuppliesSignal (.object fields) name a x ↔
      ∃ v, entries.get? name = some v ∧ Layer.Supplies v a x := by
  constructor
  · rintro ⟨given, v, hpart, hv, hx⟩
    have hget : fields.get? "signals" = some (.object given) := hpart
    cases h with
    | absent hnone => cases hnone.symm.trans hget
    | given hsome =>
      cases hsome.symm.trans hget
      exact ⟨v, hv, hx⟩
  · rintro ⟨v, hv, hx⟩
    cases h with
    | absent _ => cases hv
    | given hsome => exact ⟨entries, v, hsome, hv, hx⟩

/-- A statement has the attributes of signals that its object supplies. -/
theorem signals_eq_some_iff (h : read key (.object fields) = .ok (some said)) {name : String}
    {a : SignalAttribute} {x : Record.Carrier a} :
    (Keyed.get? said.signals name).bind (· a) = some x ↔
      SuppliesSignal (.object fields) name a x := by
  obtain ⟨-, -, entries, hentries, hsignals⟩ := read_object_eq_ok_iff.mp h
  have known : Layer.attribute? (Record.key a) = some a := by cases a <;> rfl
  rw [hentries.suppliesSignal_iff, get?_signals hsignals]
  cases hv : entries.get? name with
  | none => simp
  | some v =>
    obtain ⟨layer, hlayer⟩ := exists_layer hsignals hv
    rw [Option.bind_some, hlayer]
    show layer a = some x ↔ _
    rw [Layer.read_eq_some_iff hlayer known rfl]
    simp

end Statement

/-! ## Drafts that carry a layer -/

namespace MessageDraft

/-- What a draft has for an attribute of a signal. -/
def signalValue? (d : MessageDraft) (name : String) (a : SignalAttribute) :
    Option (Record.Carrier a) :=
  (d.signals.get? name).bind (· a)

/-- A draft has every value that a layer supplies. -/
structure Carries (d : MessageDraft) (raw : Value) : Prop where
  values : ∀ a, a ≠ MessageAttribute.signals → ∀ x, Layer.Supplies raw a x →
    d.attributes a = some x
  signalValues : ∀ name a x, SuppliesSignal raw name a x → d.signalValue? name a = some x

/-- A draft becomes one that carries a layer and is otherwise as it was. -/
structure Takes (d : MessageDraft) (raw : Value) (d' : MessageDraft) : Prop where
  id : d'.id = d.id
  carries : d'.Carries raw
  others : ∀ a, a ≠ MessageAttribute.signals → (∀ x, ¬ Layer.Supplies raw a x) →
    d'.attributes a = d.attributes a
  otherSignals : ∀ name a, (∀ x, ¬ SuppliesSignal raw name a x) →
    d'.signalValue? name a = d.signalValue? name a

theorem signalValue?_join (d : OrderedDraft) (said : OrderedStatement) (name : String)
    (a : SignalAttribute) : (d.draft.join said).signalValue? name a =
      ((Keyed.get? said.statement.signals name).bind (· a)).or (d.draft.signalValue? name a) := by
  rw [signalValue?, signalValue?, get?_signals_join]
  cases d.draft.signals.get? name with
  | none =>
    rw [Option.merge_none_left]
    exact Option.or_none.symm
  | some below =>
    cases Keyed.get? said.statement.signals name with
    | none => rfl
    | some above => rfl

/-- What joins a draft is taken in by it. -/
theorem takes_join (d : OrderedDraft) {key : String} {m : OrderedObject} {said : Statement}
    (h : Statement.read key (.object m) = .ok (some said)) :
    d.draft.Takes (.object m) (d.draft.join said) := by
  lift said to OrderedStatement using Statement.signals_ordered h
  refine ⟨rfl, ⟨fun a ha x hx => ?_, fun name a x hx => ?_⟩, fun a ha hnone => ?_,
    fun name a hnone => ?_⟩
  · rw [join_attributes d.draft said ha, (Statement.attributes_eq_some_iff h ha).mpr hx,
      Option.some_or]
  · rw [signalValue?_join d said, (Statement.signals_eq_some_iff h).mpr hx, Option.some_or]
  · have hsilent : said.statement.attributes a = none := by
      apply Option.eq_none_iff_forall_ne_some.mpr
      exact fun x hx => hnone x ((Statement.attributes_eq_some_iff h ha).mp hx)
    rw [join_attributes d.draft said ha, hsilent, Option.none_or]
  · have hsilent : (Keyed.get? said.statement.signals name).bind (· a) = none := by
      apply Option.eq_none_iff_forall_ne_some.mpr
      exact fun x hx => hnone x ((Statement.signals_eq_some_iff h).mp hx)
    rw [signalValue?_join d said, hsilent, Option.none_or]

end MessageDraft

/-! ## Accepted layers -/

namespace Drafts

variable {drafts drafts' : Drafts} {key : String}

/-- One draft of an identifier, or a new one, takes a layer in; the others stay. -/
inductive TakesIn (drafts : Drafts) (id : UInt32) (raw : Value) : Drafts → Prop
  | joined {before after : Drafts} {d d' : MessageDraft} (split : drafts = before ++ d :: after)
      (same : d.id = id) (takes : d.Takes raw d') : TakesIn drafts id raw (before ++ d' :: after)
  | begun {d' : MessageDraft} (takes : (MessageDraft.blank id).Takes raw d') :
      TakesIn drafts id raw (drafts ++ [d'])

theorem TakesIn.exists_carries {id : UInt32} {raw : Value} (h : drafts.TakesIn id raw drafts') :
    ∃ d ∈ drafts', d.id = id ∧ d.Carries raw := by
  cases h with
  | @joined before after d d' split same takes =>
    refine ⟨d', ?_, takes.id.trans same, takes.carries⟩
    exact List.mem_append_right _ List.mem_cons_self
  | @begun d' takes =>
    refine ⟨d', ?_, takes.id, takes.carries⟩
    exact List.mem_append_right _ List.mem_cons_self

/-- An accepted object is taken in. -/
theorem takesIn_of_object {m : OrderedObject} (signals : ∀ d ∈ drafts, d.signals.Ordered)
    (h : drafts.add (key, .object m) = .ok drafts') :
    ∃ id, Identifier.parse? key = some id ∧ drafts.TakesIn id (.object m) drafts' := by
  obtain ⟨said, hread, rfl⟩ := add_object_eq_ok_iff.mp h
  refine ⟨said.id, (Statement.read_object_eq_ok_iff.mp hread).1, ?_⟩
  have htakes : ∀ {before after : Drafts} {d : MessageDraft}, drafts = before ++ d :: after →
      d.Takes (.object m) (d.join said) := by
    intro before after d split
    have hmem : d ∈ drafts := by
      rw [split]
      exact List.mem_append_right _ List.mem_cons_self
    exact MessageDraft.takes_join ⟨d, signals d hmem⟩ hread
  have hstep := step_join drafts said
  generalize drafts.join said = drafts' at hstep ⊢
  cases hstep with
  | joined split _ same _ _ => exact .joined split same (htakes split)
  | adopted split _ same _ _ _ => exact .joined split same (htakes split)
  | only split _ same _ => exact .joined split same (htakes split)
  | begun named bare => exact .begun (MessageDraft.takes_join (.blank _) hread)

/-- An accepted layer that is no object is an array, and nothing of it is left. -/
theorem add_not_object {raw : Value} (hraw : ¬ raw.IsObject)
    (h : drafts.add (key, raw) = .ok drafts') :
    (∃ id, Identifier.parse? key = some id) ∧ (∃ items, raw = .array items) ∧
      drafts' = drafts := by
  obtain ⟨said?, hread, h⟩ := Except.bind_eq_ok_iff.mp h
  obtain ⟨id, hid, hread⟩ := Except.bind_eq_ok_iff.mp hread
  refine ⟨⟨id, identify_eq_ok_iff.mp hid⟩, ?_⟩
  split at hread
  · next fields hfields => exact absurd ⟨fields, hfields⟩ hraw
  · obtain ⟨layer, hlayer, hread⟩ := Except.bind_eq_ok_iff.mp hread
    cases hread
    refine ⟨?_, (Except.ok.inj h).symm⟩
    have hlayer := readRecord_eq_ok_iff.mp hlayer
    cases raw with
    | object fields => exact absurd ⟨fields, rfl⟩ hraw
    | array items => exact ⟨items, rfl⟩
    | _ => cases hlayer

/-- An accepted layer has a key that spells an identifier.  If the layer is an object, a draft of
that identifier takes it in.  Otherwise it is an array, and the drafts stay as they are: so they
have all that the layer supplies exactly if it is an object or they had it before. -/
theorem carries_of_add {raw : Value} (ordered : raw.Ordered)
    (signals : ∀ d ∈ drafts, d.signals.Ordered) (accepted : drafts.add (key, raw) = .ok drafts') :
    ∃ id, Identifier.parse? key = some id ∧
      (raw.IsObject → drafts.TakesIn id raw drafts') ∧
      (¬ raw.IsObject → (∃ items, raw = .array items) ∧ drafts' = drafts) ∧
      ((∃ d ∈ drafts', d.id = id ∧ d.Carries raw) ↔
        raw.IsObject ∨ ∃ d ∈ drafts, d.id = id ∧ d.Carries raw) := by
  by_cases hraw : raw.IsObject
  · obtain ⟨fields, rfl⟩ := hraw
    lift fields to OrderedObject using ordered
    obtain ⟨id, hid, htakes⟩ := takesIn_of_object signals accepted
    refine ⟨id, hid, fun _ => htakes, fun hnot => absurd ⟨fields, rfl⟩ hnot, ?_⟩
    exact iff_of_true htakes.exists_carries (.inl ⟨fields, rfl⟩)
  · obtain ⟨⟨id, hid⟩, harray, rfl⟩ := add_not_object hraw accepted
    refine ⟨id, hid, fun hobject => absurd hobject hraw, fun _ => ⟨harray, rfl⟩, ?_⟩
    rw [or_iff_right hraw]

theorem carries_of_add_overriding : ∃ drafts',
    add [.blank 256] ("0x100", .object overriding) = .ok drafts' ∧
    ∃ d ∈ drafts', d.id = 256 ∧ d.attributes .name = some "gearbox" ∧
      d.signalValue? "gear" .bitSize = some (3 : UInt32) := by
  have haccepted : (add [.blank 256] ("0x100", .object overriding)).toOption.any fun _ => true := by
    decide +kernel
  obtain ⟨drafts', h, -⟩ := Except.exists_of_any_toOption haccepted
  have ordered : (Value.object overriding).Ordered := by decide
  have signals : ∀ d ∈ [MessageDraft.blank 256], d.signals.Ordered :=
    List.forall_mem_singleton.mpr Keyed.ordered_nil
  obtain ⟨id, hid, -, -, hcarries⟩ := carries_of_add ordered signals h
  obtain rfl : id = 256 := by
    have hkey : Identifier.parse? "0x100" = some 256 := by decide +kernel
    exact Option.some.inj (hid.symm.trans hkey)
  obtain ⟨d, hd, hsame, hvalues⟩ := hcarries.mpr (.inl ⟨overriding, rfl⟩)
  refine ⟨drafts', h, d, hd, hsame, ?_, ?_⟩
  · exact hvalues.values .name (by decide) "gearbox" ⟨.text "gearbox", rfl, by simp, rfl⟩
  · exact hvalues.signalValues "gear" .bitSize (3 : UInt32)
      ⟨_, _, rfl, rfl, .int 3, rfl, by simp, rfl⟩

/-- Not every accepted layer is taken in: a record may be written as an array, and a message that is
written so is lost. -/
theorem not_forall_carries :
    ¬ ∀ (drafts drafts' : Drafts) (key : String) (raw : Value), raw.Ordered →
      (∀ d ∈ drafts, d.signals.Ordered) → drafts.add (key, raw) = .ok drafts' →
      ∃ d ∈ drafts', Identifier.parse? key = some d.id ∧ d.Carries raw := by
  intro hall
  have haccepted : add [] ("0x100", .array [.text "hs", .text "engine"]) = .ok [] := by
    rfl
  have hordered : (Value.array [.text "hs", .text "engine"]).Ordered := ⟨trivial, trivial, trivial⟩
  obtain ⟨d, hd, -⟩ := hall [] [] "0x100" _ hordered (fun _ hd => nomatch hd) haccepted
  cases hd

end Drafts

end CanTables
