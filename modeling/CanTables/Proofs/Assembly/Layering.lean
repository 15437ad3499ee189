import CanTables.Proofs.Assembly.Keys
import CanTables.Proofs.Assembly.References
import CanTables.Proofs.Assembly.Statement
import CanTables.Proofs.Document.Path
import CanTables.Proofs.Schema.Overlay

/-!
# CanTables.Proofs.Assembly.Layering — two ways of putting messages on top of each other

What a message inherits is merged with what its file says before either is read; what a later file
says is read and joins the draft that is there.  For objects that are `Layerable` both ways lead to
the same drafts (`Drafts.add_overlay`): merged and then read, the attributes and the signals are
those of the two statements stacked.

The exceptions are where merging and stacking differ.  Handlers and states are merged with those
below but stacked in their place, a null hides what is below from the merged object but says nothing
in a layer, and two buses make two messages.
-/

namespace CanTables

open Declaration Document Positions Schema Value

/-- Message objects that can be merged before or after they are read: the upper one has no nulls,
signals are objects, and no list of handlers, no states and no bus replace others. -/
structure Layerable (lower upper : Value) : Prop where
  attributes : ∀ key, upper.at? [key] ≠ some .null
  signalAttributes : ∀ name key, upper.at? ["signals", name, key] ≠ some .null
  signals : ∀ v ∈ [lower, upper], ∀ name w, v.at? ["signals", name] = some w → w.IsObject
  handlers : ∀ x y, lower.at? ["handlers"] = some x → upper.at? ["handlers"] = some y → x = .null
  states : ∀ name x y, lower.at? ["signals", name, "states"] = some x →
    upper.at? ["signals", name, "states"] = some y → x = .null
  bus : ∀ s t, lower.at? ["bus"] = some (.text s) → upper.at? ["bus"] = some (.text t) → s = t

/-! ## Statements of objects -/

namespace Statement

theorem checkKeys_eq_ok_iff {entity : Entity} {known : List String} {name message : String}
    {fields : Fields} :
    checkKeys entity known name message fields = .ok () ↔ ∀ field ∈ fields, field.1 ∈ known := by
  unfold checkKeys
  split
  · next hnone =>
    refine iff_of_true rfl fun field hfield => ?_
    have := List.find?_eq_none.mp hnone field hfield
    simpa using this
  · next field hfield =>
    refine iff_of_false nofun fun hall => ?_
    have := List.find?_some hfield
    rw [List.contains_iff_mem.mpr (hall field (List.mem_of_find?_eq_some hfield))] at this
    cases this

/-- An object says about a signal what it reads as. -/
theorem readSignal_object_eq_ok_iff {key name : String} {fields : Fields}
    {said : String × SignalLayer} :
    readSignal key (name, .object fields) = .ok said ↔
      said.1 = name ∧ Layer.read (.object fields) = .ok said.2 := by
  refine ⟨readSignal_eq_ok, ?_⟩
  obtain ⟨name', layer⟩ := said
  rintro ⟨rfl, hread⟩
  have hkeys : checkKeys .signal (Layer.knownKeys SignalAttribute) name' key fields = .ok () :=
    checkKeys_eq_ok_iff.mpr fun field hfield => Layer.mem_knownKeys_of_read hread hfield
  exact Except.bind_eq_ok_iff.mpr ⟨(), hkeys,
    Except.bind_eq_ok_iff.mpr ⟨layer, readRecord_eq_ok_iff.mpr hread, rfl⟩⟩

/-- The fields that an object has for signals, if any. -/
inductive SignalFields (fields : Fields) : Fields → Prop where
  | absent (none : fields.get? "signals" = none) : SignalFields fields []
  | given {entries : Fields} (some : fields.get? "signals" = some (.object entries)) :
      SignalFields fields entries

/-- An object is accepted if its key spells an identifier, its attributes are a record, and so is
what it has for every signal. -/
theorem read_object_eq_ok_iff {key : String} {fields : Fields} {said : Statement} :
    read key (.object fields) = .ok (some said) ↔
      Identifier.parse? key = some said.id ∧
        Layer.read (.object (Keyed.erase fields "signals")) = .ok said.attributes ∧
          ∃ entries, SignalFields fields entries ∧
            List.Forall₂ (fun entry signal => readSignal key entry = .ok signal) entries
              said.signals := by
  constructor
  · intro h
    obtain ⟨id, hid, h⟩ := Except.bind_eq_ok_iff.mp h
    obtain ⟨statement, hstatement, h⟩ := Except.bind_eq_ok_iff.mp h
    cases h
    obtain ⟨-, -, h⟩ := Except.bind_eq_ok_iff.mp hstatement
    obtain ⟨attributes, hattributes, h⟩ := Except.bind_eq_ok_iff.mp h
    dsimp only at h
    split at h
    · next hnone =>
      cases h
      exact ⟨identify_eq_ok_iff.mp hid, readRecord_eq_ok_iff.mp hattributes, [], .absent hnone,
        .nil⟩
    · next raw hraw =>
      obtain ⟨entries, hentries, h⟩ := Except.bind_eq_ok_iff.mp h
      obtain ⟨signals, hsignals, h⟩ := Except.bind_eq_ok_iff.mp h
      cases h
      rw [Reader.object_eq_ok (readRecord_eq_ok_iff.mp hentries)] at hraw
      exact ⟨identify_eq_ok_iff.mp hid, readRecord_eq_ok_iff.mp hattributes, entries, .given hraw,
        Except.mapM_eq_ok_iff.mp hsignals⟩
  · rintro ⟨hid, hattributes, entries, hentries, hsignals⟩
    have hkeys : checkKeys .message (Layer.knownKeys MessageAttribute) key key fields = .ok () := by
      refine checkKeys_eq_ok_iff.mpr fun field hfield => ?_
      by_cases hkey : field.1 = "signals"
      · rw [hkey]
        decide
      · exact Layer.mem_knownKeys_of_read hattributes
          (List.mem_filter.mpr ⟨hfield, bne_iff_ne.mpr hkey⟩)
    have hread : ofFields key said.id fields = .ok said := by
      refine Except.bind_eq_ok_iff.mpr ⟨(), hkeys, Except.bind_eq_ok_iff.mpr
        ⟨said.attributes, readRecord_eq_ok_iff.mpr hattributes, ?_⟩⟩
      cases hentries with
      | absent hnone =>
        cases hnil : said.signals with
        | nil =>
          rw [hnone]
          exact congrArg Except.ok (by rw [← hnil])
        | cons signal rest => cases hnil ▸ hsignals
      | given hsome =>
        rw [hsome]
        exact Except.bind_eq_ok_iff.mpr ⟨entries, rfl, Except.bind_eq_ok_iff.mpr
          ⟨said.signals, Except.mapM_eq_ok_iff.mpr hsignals, rfl⟩⟩
    exact Except.bind_eq_ok_iff.mpr ⟨said.id, identify_eq_ok_iff.mpr hid,
      Except.bind_eq_ok_iff.mpr ⟨said, hread, rfl⟩⟩

theorem exists_layer {key : String} {entries : Fields} {said : List (String × SignalLayer)}
    (h : List.Forall₂ (fun entry signal => readSignal key entry = .ok signal) entries said)
    {name : String} {v : Value} (hv : entries.get? name = some v) :
    ∃ layer : SignalLayer, Layer.read v = .ok layer := by
  obtain ⟨signal, -, hsignal⟩ := exists_right_of_forall₂ h (Keyed.mem_of_get?_eq_some hv)
  exact ⟨signal.2, (readSignal_eq_ok hsignal).2⟩

/-- What is said about the signal with a name is what stands under the name. -/
theorem get?_signals {key : String} {entries : Fields} {said : List (String × SignalLayer)}
    (h : List.Forall₂ (fun entry signal => readSignal key entry = .ok signal) entries said)
    (name : String) :
    Keyed.get? said name = (entries.get? name).bind fun v => (Layer.read v).toOption := by
  induction h with
  | nil => rfl
  | @cons entry signal _ _ hsignal _ ih =>
    obtain ⟨hname, hread⟩ := readSignal_eq_ok hsignal
    obtain ⟨name', v⟩ := entry
    obtain ⟨name'', layer⟩ := signal
    obtain rfl : name'' = name' := hname
    rw [Keyed.get?_cons, Keyed.get?_cons]
    split
    · rw [Option.bind_some, hread]
      rfl
    · exact ih

theorem keys_signals {key : String} {entries : Fields} {said : List (String × SignalLayer)}
    (h : List.Forall₂ (fun entry signal => readSignal key entry = .ok signal) entries said) :
    Keyed.keys said = Keyed.keys entries := by
  induction h with
  | nil => rfl
  | cons hsignal _ ih =>
    rw [Keyed.keys, List.map_cons, (readSignal_eq_ok hsignal).1]
    exact congrArg _ ih

namespace SignalFields

theorem at? {fields entries : Fields} (h : SignalFields fields entries) (name : String) :
    (Value.object fields).at? ["signals", name] = entries.get? name := by
  rw [at?_cons_object]
  cases h with
  | absent hnone =>
    rw [hnone]
    rfl
  | given hsome =>
    rw [hsome, Option.bind_some, at?_singleton]

theorem ordered {m : OrderedObject} {entries : Fields} (h : SignalFields m entries) :
    (Value.object entries).Ordered := by
  cases h with
  | absent _ => exact OrderedObject.empty.ordered
  | given hsome => exact (m.objectAt hsome).ordered

/-- Merging objects merges what they have for signals. -/
theorem overlay {lower upper : OrderedObject} {below above : Fields} (h : SignalFields lower below)
    (h' : SignalFields upper above) :
    SignalFields (overlayFields lower upper) (overlayFields below above) := by
  have hget := get?_overlayFields lower upper "signals"
  cases h with
  | absent hnone =>
    rw [overlayFields_nil ⟨above, h'.ordered⟩]
    cases h' with
    | absent hnone' => exact .absent (by rw [hget, hnone, hnone']; rfl)
    | given hsome' => exact .given (by rw [hget, hnone, hsome']; rfl)
  | given hsome =>
    cases h' with
    | absent hnone' => exact .given (by rw [hget, hsome, hnone']; rfl)
    | given hsome' =>
      exact .given (by rw [hget, hsome, hsome', Option.merge_some_some, overlayEntry_object])

end SignalFields

theorem signals_ordered {key : String} {m : OrderedObject} {said : Statement}
    (h : read key (.object m) = .ok (some said)) : Keyed.Ordered said.signals := by
  obtain ⟨-, -, entries, hentries, hsignals⟩ := read_object_eq_ok_iff.mp h
  exact (ordered_object_iff.mp hentries.ordered).1.of_keys_eq (keys_signals hsignals)

/-- A bus that an attribute layer names stands as a text in the object. -/
theorem at?_bus {fields : Fields} {layer : MessageLayer}
    (h : Layer.read (.object (Keyed.erase fields "signals")) = .ok layer) {name : String}
    (hname : layer .bus = some name) : (Value.object fields).at? ["bus"] = some (.text name) := by
  rw [Layer.read_object h] at hname
  obtain ⟨v, hv, hread⟩ := Layer.ofFields_eq_some hname
  rw [Keyed.get?_erase, if_neg (by decide)] at hv
  rw [at?_singleton, ← Reader.text_eq_ok_iff.mp hread]
  exact hv

/-- A statement says about attributes and signals what two others say stacked. -/
structure Stacks (said below above : Statement) : Prop where
  id : said.id = below.id
  attributes : said.attributes = Layer.overlay below.attributes above.attributes
  signals : ∀ name, Keyed.get? said.signals name =
    Option.merge Layer.overlay (Keyed.get? below.signals name) (Keyed.get? above.signals name)

end Statement

/-! ## Merging before reading -/

namespace Layerable

variable {lower upper : OrderedObject}

/-- What both objects have for the attributes of the message, merged and read. -/
theorem read_attributes (h : Layerable (.object lower) (.object upper))
    {below above : MessageLayer}
    (hbelow : Layer.read (.object (lower.fields.erase "signals")) = .ok below)
    (habove : Layer.read (.object (upper.fields.erase "signals")) = .ok above) :
    Layer.read (.object (Keyed.erase (overlayFields lower upper) "signals")) =
      .ok (Layer.overlay below above) := by
  rw [erase_overlayFields]
  refine Layer.read_overlay (fun a => by cases a <;> rfl) (lower.erase "signals")
    (upper.erase "signals") (fun key => ?_) (fun a v w x hv hw hx => ?_) hbelow habove
  · rw [Keyed.get?_erase]
    split
    · exact (Option.some_ne_none _).symm
    · rw [← at?_singleton]
      exact h.attributes key
  · rw [Keyed.get?_erase] at hv hw
    split at hv
    · cases hv
    · next hkey =>
      rw [if_neg hkey, ← at?_singleton] at hw
      rw [← at?_singleton] at hv
      by_cases ha : a = .handlers
      · obtain rfl := ha
        exact .inr (h.handlers v w hv hw)
      · refine .inl (messageAttribute_plain ha ?_ w x hx)
        rintro rfl
        exact hkey rfl

/-- What both objects have for a signal, merged and read. -/
theorem read_signal (h : Layerable (.object lower) (.object upper)) {name : String} {v w : Value}
    (hv : (Value.object lower).at? ["signals", name] = some v)
    (hw : (Value.object upper).at? ["signals", name] = some w) {below above : SignalLayer}
    (hbelow : Layer.read v = .ok below) (habove : Layer.read w = .ok above) :
    Layer.read (overlayEntry v w) = .ok (Layer.overlay below above) := by
  have hordered := ordered_of_at? lower.toValue hv
  have hordered' := ordered_of_at? upper.toValue hw
  obtain ⟨m, rfl⟩ := h.signals _ (List.mem_cons_self) name v hv
  obtain ⟨n, rfl⟩ := h.signals _ (List.mem_cons_of_mem _ (List.mem_singleton_self _)) name w hw
  have hget : ∀ key, (Value.object lower).at? ["signals", name, key] = Keyed.get? m key :=
    at?_concat hv
  have hget' : ∀ key, (Value.object upper).at? ["signals", name, key] = Keyed.get? n key :=
    at?_concat hw
  rw [overlayEntry_object]
  refine Layer.read_overlay (fun a => by cases a <;> rfl) ⟨m, hordered⟩ ⟨n, hordered'⟩
    (fun key => hget' key ▸ h.signalAttributes name key) (fun a v w x hv hw hx => ?_) hbelow habove
  by_cases ha : a = .states
  · obtain rfl := ha
    exact .inr (h.states name v w ((hget _).trans hv) ((hget' _).trans hw))
  · exact .inl (signalAttribute_plain ha w x hx)

/-- What stands for a signal in two merged objects is what one of them has for it, or what both
have, merged; it is read as what they say stacked. -/
theorem exists_layer (h : Layerable (.object lower) (.object upper)) {entries entries' : Fields}
    (hentries : Statement.SignalFields lower entries)
    (hentries' : Statement.SignalFields upper entries') {key : String}
    {below above : List (String × SignalLayer)}
    (hbelow : List.Forall₂ (fun entry signal => Statement.readSignal key entry = .ok signal) entries
      below)
    (habove : List.Forall₂ (fun entry signal => Statement.readSignal key entry = .ok signal)
      entries' above)
    {name : String} {v : Value}
    (hv : Option.merge overlayEntry (entries.get? name) (entries'.get? name) = some v) :
    ∃ fields layer, v = .object fields ∧ Layer.read v = .ok layer ∧
      Option.merge Layer.overlay (Keyed.get? below name) (Keyed.get? above name) = some layer := by
  rw [Statement.get?_signals hbelow, Statement.get?_signals habove]
  cases hx : entries.get? name with
  | none =>
    rw [hx, Option.merge_none_left] at hv
    obtain ⟨layer, hread⟩ := Statement.exists_layer habove hv
    obtain ⟨fields, rfl⟩ := h.signals _ (.tail _ (.head _)) name v ((hentries'.at? name).trans hv)
    refine ⟨fields, layer, rfl, hread, ?_⟩
    rw [hv, Option.bind_some, hread]
    rfl
  | some x =>
    obtain ⟨layer, hread⟩ := Statement.exists_layer hbelow hx
    obtain ⟨m, rfl⟩ := h.signals _ (.head _) name x ((hentries.at? name).trans hx)
    cases hy : entries'.get? name with
    | none =>
      rw [hx, hy, Option.merge_none_right, Option.some.injEq] at hv
      obtain rfl := hv
      refine ⟨m, layer, rfl, hread, ?_⟩
      rw [Option.bind_some, hread]
      rfl
    | some y =>
      rw [hx, hy, Option.merge_some_some, Option.some.injEq] at hv
      obtain rfl := hv
      obtain ⟨layer', hread'⟩ := Statement.exists_layer habove hy
      obtain ⟨n, rfl⟩ := h.signals _ (.tail _ (.head _)) name y ((hentries'.at? name).trans hy)
      refine ⟨_, Layer.overlay layer layer', overlayEntry_object m n, ?_, ?_⟩
      · exact h.read_signal ((hentries.at? name).trans hx) ((hentries'.at? name).trans hy) hread
          hread'
      · rw [Option.bind_some, Option.bind_some, hread, hread']
        rfl

/-- Two accepted objects are accepted merged, and then say what they say stacked. -/
theorem read_overlay (h : Layerable (.object lower) (.object upper)) {key : String}
    {below above : Statement} (hbelow : Statement.read key (.object lower) = .ok (some below))
    (habove : Statement.read key (.object upper) = .ok (some above)) :
    ∃ said, Statement.read key (.object (overlayFields lower upper)) = .ok (some said) ∧
      said.Stacks below above := by
  obtain ⟨hid, hattributes, entries, hentries, hsignals⟩ :=
    Statement.read_object_eq_ok_iff.mp hbelow
  obtain ⟨-, hattributes', entries', hentries', hsignals'⟩ :=
    Statement.read_object_eq_ok_iff.mp habove
  let m : OrderedObject := ⟨entries, hentries.ordered⟩
  let n : OrderedObject := ⟨entries', hentries'.ordered⟩
  have hget := get?_overlayFields m n
  have hmerged := hentries.overlay hentries'
  have hread : ∀ entry ∈ overlayFields entries entries', ∃ signal,
      Statement.readSignal key entry = .ok signal := by
    rintro ⟨name, v⟩ hmem
    have hv := (m.overlay n).keys_ordered.get?_eq_some_iff.mpr hmem
    obtain ⟨fields, layer, rfl, hread, -⟩ :=
      h.exists_layer hentries hentries' hsignals hsignals' ((hget name).symm.trans hv)
    exact ⟨(name, layer), Statement.readSignal_object_eq_ok_iff.mpr ⟨rfl, hread⟩⟩
  obtain ⟨signals, hsaid⟩ := exists_forall₂_of_forall hread
  refine ⟨⟨below.id, Layer.overlay below.attributes above.attributes, signals⟩,
    Statement.read_object_eq_ok_iff.mpr ⟨hid,
      h.read_attributes hattributes hattributes', _, hmerged, hsaid⟩,
    rfl, rfl, fun name => ?_⟩
  rw [Statement.get?_signals hsaid, hget]
  cases hv : Option.merge overlayEntry (entries.get? name) (entries'.get? name) with
  | none =>
    obtain ⟨hnone, hnone'⟩ := Option.merge_eq_none_iff.mp hv
    rw [Statement.get?_signals hsignals, Statement.get?_signals hsignals', hnone, hnone']
    rfl
  | some v =>
    obtain ⟨fields, layer, rfl, hread, hmerge⟩ :=
      h.exists_layer hentries hentries' hsignals hsignals' hv
    rw [hmerge, Option.bind_some, hread]
    rfl

end Layerable

/-! ## Joining a draft -/

/-- A statement that speaks of signals in the order of their names. -/
structure OrderedStatement where
  statement : Statement
  ordered : Keyed.Ordered statement.signals

/-- A draft with its signals in the order of their names. -/
structure OrderedDraft where
  draft : MessageDraft
  ordered : draft.signals.Ordered

instance : Coe OrderedStatement Statement := ⟨OrderedStatement.statement⟩

instance : Coe OrderedDraft MessageDraft := ⟨OrderedDraft.draft⟩

instance : CanLift Statement OrderedStatement OrderedStatement.statement fun said =>
    Keyed.Ordered said.signals := ⟨fun said h => ⟨⟨said, h⟩, rfl⟩⟩

/-- What a statement says about signals, as a map. -/
abbrev OrderedStatement.signals (said : OrderedStatement) : OrderedKeyed String SignalLayer :=
  ⟨said.statement.signals, said.ordered⟩

namespace OrderedDraft

/-- The signals of a draft, as a map. -/
abbrev signals (d : OrderedDraft) : OrderedKeyed String SignalLayer := ⟨d.draft.signals, d.ordered⟩

/-- A draft about which nothing is said yet. -/
abbrev blank (id : UInt32) : OrderedDraft := ⟨.blank id, Keyed.ordered_nil⟩

/-- A draft with a statement on top. -/
abbrev join (d : OrderedDraft) (said : Statement) : OrderedDraft :=
  ⟨d.draft.join said, MessageDraft.foldl_addSignal_ordered d.signals said.signals⟩

end OrderedDraft

namespace MessageDraft

/-- What is said about signals, each name once, is stacked on what was said before. -/
theorem get?_foldl_addSignal_of_ordered (signals said : OrderedKeyed String SignalLayer)
    (name : String) :
    Keyed.get? (said.entries.foldl addSignal signals) name =
      Option.merge Layer.overlay (signals.entries.get? name) (said.entries.get? name) := by
  obtain ⟨said, hsaid⟩ := said
  dsimp only
  induction said generalizing signals with
  | nil =>
    show signals.entries.get? name = _
    cases signals.entries.get? name <;> rfl
  | cons entry rest ih =>
    obtain ⟨k, layer⟩ := entry
    rw [List.foldl_cons, ih (addOrdered signals _) hsaid.tail]
    show Option.merge _ (Keyed.get? (Keyed.upsert k _ signals.entries) name) _ = _
    rw [signals.ordered.get?_upsert, Keyed.get?_cons]
    -- The rest of what is said does not have its first name again.
    by_cases hk : name = k
    · have habsent : Keyed.get? rest k = none := by
        rw [Keyed.get?_eq_none_iff]
        exact fun hmem => Std.lt_irrefl (hsaid.head_lt hmem)
      subst hk
      rw [if_pos rfl, if_pos rfl, habsent, Option.merge_none_right]
      cases signals.entries.get? name with
      | none => exact congrArg some (Layer.overlay_empty layer)
      | some below => rfl
    · rw [if_neg hk, if_neg hk]

/-- A draft and what is said on top of it, with the signals of both in order. -/
theorem get?_signals_join (d : OrderedDraft) (said : OrderedStatement) (name : String) :
    (d.draft.join said).signals.get? name = Option.merge Layer.overlay
      (d.draft.signals.get? name) (Keyed.get? said.statement.signals name) :=
  get?_foldl_addSignal_of_ordered d.signals said.signals name

/-- Joining two statements one after the other is joining what they say stacked. -/
theorem join_join (d : OrderedDraft) {said below above : OrderedStatement}
    (h : said.statement.Stacks below above) :
    (d.draft.join below).join above = d.draft.join said := by
  have hattributes : MessageLayer.overlay
      (MessageLayer.overlay d.draft.attributes below.statement.attributes)
      above.statement.attributes =
        MessageLayer.overlay d.draft.attributes said.statement.attributes := by
    rw [h.attributes]
    funext a
    cases a <;> first | rfl | exact Option.or_assoc.symm
  have hsignals : ((d.join below).join above).draft.signals = (d.join said).draft.signals := by
    refine Keyed.eq_of_get?_eq ((d.join below).join above).ordered (d.join said).ordered
      fun name => ?_
    rw [get?_signals_join (d.join below), get?_signals_join d, get?_signals_join d, h.signals]
    exact Std.Associative.assoc _ _ _
  show MessageDraft.mk d.draft.id _ _ = MessageDraft.mk d.draft.id _ _
  exact congrArg₂ (MessageDraft.mk d.draft.id) hattributes hsignals

end MessageDraft

namespace Drafts

variable {drafts : Drafts} {said : Statement}

/-- The first statement about an identifier begins a draft. -/
theorem join_new (new : ∀ d ∈ drafts, d.id ≠ said.id) :
    drafts.join said = drafts ++ [(MessageDraft.blank said.id).join said] := by
  have hstep := step_join drafts said
  generalize drafts.join said = drafts' at hstep ⊢
  have habsent : ∀ {before after : Drafts} {d : MessageDraft},
      drafts = before ++ d :: after → d.id ≠ said.id :=
    fun split => new _ (split ▸ List.mem_append_right _ List.mem_cons_self)
  cases hstep with
  | joined split _ same _ _ => exact absurd same (habsent split)
  | adopted split _ same _ _ _ => exact absurd same (habsent split)
  | only split _ same _ => exact absurd same (habsent split)
  | begun named bare => rfl

theorem eq_of_concat_eq_append {drafts before after : Drafts} {last d : MessageDraft}
    (h : drafts ++ [last] = before ++ d :: after) (hd : d ∉ drafts) :
    before = drafts ∧ d = last ∧ after = [] := by
  rcases List.eq_nil_or_concat after with rfl | ⟨rest, x, rfl⟩
  · obtain ⟨hbefore, hlast⟩ := List.append_inj' h rfl
    exact ⟨hbefore.symm, (List.singleton_inj.mp hlast).symm, rfl⟩
  · have hsplit : drafts ++ [last] = (before ++ d :: rest) ++ [x] := by
      rw [h, List.append_assoc, List.cons_append, List.concat_eq_append]
    obtain ⟨rfl, -⟩ := List.append_inj' hsplit rfl
    exact absurd (List.mem_append_right _ List.mem_cons_self) hd

/-- A further statement joins the only draft of its identifier, unless they are on two buses. -/
theorem join_last {last : MessageDraft} (new : ∀ d ∈ drafts, d.id ≠ said.id)
    (same : last.id = said.id)
    (bus : ∀ s t, last.bus = some s → said.attributes .bus = some t → s = t) :
    (drafts ++ [last]).join said = drafts ++ [last.join said] := by
  have hstep := step_join (drafts ++ [last]) said
  generalize (drafts ++ [last]).join said = drafts' at hstep ⊢
  have hlast : ∀ {before after : Drafts} {d : MessageDraft},
      drafts ++ [last] = before ++ d :: after → d.id = said.id →
        before ++ d.join said :: after = drafts ++ [last.join said] := by
    intro before after d split hid
    obtain ⟨rfl, rfl, rfl⟩ := eq_of_concat_eq_append split fun hd => new d hd hid
    rfl
  cases hstep with
  | joined split _ hid _ _ => exact hlast split hid
  | adopted split _ hid _ _ _ => exact hlast split hid
  | only split _ hid _ => exact hlast split hid
  | begun named bare =>
    -- A draft of its own is begun only if no draft of the identifier can be joined.
    exfalso
    obtain ⟨said?, hsaid⟩ : ∃ bus : Option String, said.attributes .bus = bus := ⟨_, rfl⟩
    cases said? with
    | none =>
      refine bare hsaid ?_
      rw [List.countP_append, List.countP_singleton, if_pos (beq_iff_eq.mpr same),
        List.countP_eq_zero.mpr fun d hd => by simpa using new d hd]
    | some name =>
      obtain ⟨hname, hnone⟩ := named name hsaid last (List.mem_append_right _ (.head _)) same
      obtain ⟨s, hs⟩ := Option.ne_none_iff_exists'.mp hnone
      exact hname (hs.trans (congrArg some (bus s name hs hsaid)))

theorem add_object_eq_ok_iff {key : String} {fields : Fields} {drafts' : Drafts} :
    drafts.add (key, .object fields) = .ok drafts' ↔
      ∃ said, Statement.read key (.object fields) = .ok (some said) ∧
        drafts' = drafts.join said := by
  rw [add_object rfl]
  constructor
  · exact fun ⟨hread, heq⟩ => ⟨_, hread, heq⟩
  · rintro ⟨said, hread, rfl⟩
    have hsaid := Statement.read_object_eq_ok (c := (key, .object fields)) rfl hread
    obtain rfl := Option.some.inj hsaid
    exact ⟨hread, rfl⟩

/-- Where nothing is said yet about the identifier, two accepted objects that can be merged before
or after they are read lead to the same drafts both ways: one joined after the other, or both merged
and joined at once. -/
theorem add_overlay {key : String} {lower upper : Fields} (hlower : (Value.object lower).Ordered)
    (hupper : (Value.object upper).Ordered)
    (new : ∀ d ∈ drafts, Identifier.parse? key ≠ some d.id)
    (accepted : ∃ after, drafts.add (key, .object lower) = .ok after)
    (accepted' : ∃ after, drafts.add (key, .object upper) = .ok after)
    (h : Layerable (.object lower) (.object upper)) :
    ∃ first merged, drafts.add (key, .object lower) = .ok first ∧
      first.add (key, .object upper) = .ok merged ∧
      drafts.add (key, Value.overlay (.object lower) (.object upper)) = .ok merged := by
  lift lower to OrderedObject using hlower
  lift upper to OrderedObject using hupper
  obtain ⟨_, haccepted⟩ := accepted
  obtain ⟨_, haccepted'⟩ := accepted'
  obtain ⟨below, hbelow, -⟩ := add_object_eq_ok_iff.mp haccepted
  obtain ⟨above, habove, -⟩ := add_object_eq_ok_iff.mp haccepted'
  obtain ⟨said, hsaid, hstacks⟩ := h.read_overlay hbelow habove
  obtain ⟨hid, hattributes, -⟩ := Statement.read_object_eq_ok_iff.mp hbelow
  obtain ⟨hid', hattributes', -⟩ := Statement.read_object_eq_ok_iff.mp habove
  have hsame : below.id = above.id := Option.some.inj (hid.symm.trans hid')
  have hnew : ∀ d ∈ drafts, d.id ≠ below.id := fun d hd heq => new d hd (heq ▸ hid)
  have hbus : ∀ s t, below.attributes .bus = some s → above.attributes .bus = some t → s = t :=
    fun s t hs ht =>
      h.bus s t (Statement.at?_bus hattributes hs) (Statement.at?_bus hattributes' ht)
  have hjoin : ((MessageDraft.blank below.id).join below).join above =
      (MessageDraft.blank said.id).join said := by
    lift below to OrderedStatement using Statement.signals_ordered hbelow
    lift above to OrderedStatement using Statement.signals_ordered habove
    lift said to OrderedStatement using Statement.signals_ordered (m := lower.overlay upper) hsaid
    rw [hstacks.id]
    exact MessageDraft.join_join (.blank below.statement.id) hstacks
  refine ⟨_, _, add_object_eq_ok_iff.mpr ⟨below, hbelow, rfl⟩,
    add_object_eq_ok_iff.mpr ⟨above, habove, rfl⟩, add_object_eq_ok_iff.mpr ⟨said, hsaid, ?_⟩⟩
  have hlast : (drafts ++ [(MessageDraft.blank below.id).join below]).join above =
      drafts ++ [((MessageDraft.blank below.id).join below).join above] := by
    refine join_last (hsame ▸ hnew) hsame fun s t hs ht => hbus s t ?_ ht
    rwa [MessageDraft.join_bus, MessageDraft.blank_bus, Option.or_none] at hs
  rw [join_new hnew, hlast, hjoin, join_new (hstacks.id ▸ hnew)]

/-- A message on a bus with handlers, and a signal with states. -/
def inherited : Fields := [
  ("bus", .text "hs"),
  ("handlers", .array [.text "count"]),
  ("signals", .object [("gear", .object [
    ("bit_position", .int 0),
    ("factor", .null),
    ("states", .object [("drive", .array [.int 1])])])])]

/-- A name for the message, and a size and a factor for its signal. -/
def overriding : Fields := [
  ("name", .text "gearbox"),
  ("signals", .object [("gear", .object [("bit_size", .int 3), ("factor", .int 2)])])]

theorem layerable_overriding : Layerable (.object inherited) (.object overriding) where
  attributes key h := by
    rw [at?_singleton] at h
    simpa [overriding] using Keyed.mem_of_get?_eq_some h
  signalAttributes name key h := by
    obtain ⟨v, hv, h⟩ := Option.bind_eq_some_iff.mp h
    cases hv
    rw [at?_cons_object, Keyed.get?_cons] at h
    split at h
    · rw [Option.bind_some, at?_singleton] at h
      simpa using Keyed.mem_of_get?_eq_some h
    · cases h
  signals v hv name w h := by
    rcases List.mem_pair.mp hv with rfl | rfl
    · rw [(Statement.SignalFields.given rfl).at?, Keyed.get?_cons] at h
      split at h
      · exact ⟨_, (Option.some.inj h).symm⟩
      · cases h
    · rw [(Statement.SignalFields.given rfl).at?, Keyed.get?_cons] at h
      split at h
      · exact ⟨_, (Option.some.inj h).symm⟩
      · cases h
  handlers _ _ _ h := nomatch h
  states name x y _ h := by
    obtain ⟨v, hv, h⟩ := Option.bind_eq_some_iff.mp h
    cases hv
    rw [at?_cons_object, Keyed.get?_cons] at h
    split at h
    · cases h
    · cases h
  bus _ _ _ h := nomatch h

theorem add_overlay_overriding : ∃ first merged,
    add [.blank 1] ("0x100", .object inherited) = .ok first ∧
      first.add ("0x100", .object overriding) = .ok merged ∧
      add [.blank 1] ("0x100", Value.overlay (.object inherited) (.object overriding)) =
        .ok merged := by
  have haccepted : (add [.blank 1] ("0x100", .object inherited)).toOption.any fun _ => true := by
    decide +kernel
  have haccepted' : (add [.blank 1] ("0x100", .object overriding)).toOption.any fun _ => true := by
    decide +kernel
  obtain ⟨after, h, -⟩ := Except.exists_of_any_toOption haccepted
  obtain ⟨after', h', -⟩ := Except.exists_of_any_toOption haccepted'
  exact add_overlay (by decide) (by decide) (by decide) ⟨after, h⟩ ⟨after', h'⟩ layerable_overriding

end Drafts

end CanTables
