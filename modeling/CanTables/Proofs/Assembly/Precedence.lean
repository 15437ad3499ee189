import CanTables.Proofs.Assembly.Respell
import CanTables.Proofs.Assembly.Statement

/-!
# CanTables.Proofs.Assembly.Precedence — whose word counts

A child lies over its parents, but only under one spelling of an identifier: the layers of an
identifier are stacked by spelling first.  So what a child says about a message stands if no
ancestor spells its identifier by a greater text (`Catalog.child_stands`), and if one does, it may
be hidden.
-/

namespace CanTables

open Declaration Document Schema Value Lineage

/-! ## The topmost layer of a message -/

/-- An object that has the plain values of another one. -/
def Has (fields : Fields) (v : Value) : Prop :=
  ∃ upper : OrderedObject, v = .object upper.fields ∧
    ∀ a x, fields.get? a = some x → x.IsPlain → upper.fields.get? a = some x

theorem Has.overlayFields {fields : Fields} (lower : OrderedObject) {upper : OrderedObject}
    (h : ∀ a x, fields.get? a = some x → x.IsPlain → upper.fields.get? a = some x) :
    Has fields (.object (overlayFields lower upper)) := by
  refine ⟨lower.overlay upper, rfl, fun a x ha hx => ?_⟩
  rw [get?_overlayFields, h a x ha hx]
  cases lower.fields.get? a with
  | none => rfl
  | some below =>
    rw [Option.merge_some_some, overlayEntry_plain below hx]

/-- What is laid over anything keeps its plain values. -/
theorem Has.overlay {fields : Fields} (below : OrderedValue) {above : Value}
    (h : Has fields above) : Has fields (overlay below above) := by
  obtain ⟨upper, rfl, hfields⟩ := h
  rcases below.object_or with ⟨lower, rfl⟩ | hbelow
  · exact .overlayFields lower hfields
  · rw [overlay_of_not_object hbelow]
    exact ⟨upper, rfl, hfields⟩

theorem Has.merge {fields : Fields} (m : OrderedObject) (key : String) {above : Value}
    (h : Has fields above) :
    ∃ v, Option.merge overlayEntry (m.fields.get? key) (some above) = some v ∧ Has fields v := by
  cases hget : m.fields.get? key with
  | none => exact ⟨above, rfl, h⟩
  | some below =>
    refine ⟨_, rfl, ?_⟩
    obtain ⟨upper, rfl, hfields⟩ := h
    by_cases hobject : ∃ lower, below = .object lower
    · obtain ⟨lower, rfl⟩ := hobject
      rw [overlayEntry_object]
      exact .overlayFields (m.objectAt hget) hfields
    · rw [overlayEntry_of_not_object fun lower heq => hobject ⟨lower, heq⟩]
      exact ⟨upper, rfl, hfields⟩

/-! ## The messages of a lineage -/

/-- A file in which an object with given plain values stands under a message key. -/
def Says (key : String) (fields : Fields) (v : Value) : Prop :=
  ∃ m : Fields, v.field? messagesKey = some (.object m) ∧ ∃ w, m.get? key = some w ∧ Has fields w

/-- What a file says stands when it is laid over another. -/
theorem Says.overlay {key : String} {fields : Fields} (below : OrderedValue) {above : OrderedValue}
    (h : Says key fields above) : Says key fields (overlay below above) := by
  obtain ⟨n, hn, w, hw, hhas⟩ := h
  rcases below.object_or with ⟨lower, rfl⟩ | hbelow
  · rcases above.object_or with ⟨upper, rfl⟩ | habove
    · have hupper : upper.fields.get? messagesKey = some (.object n) := hn
      rw [Says, field?_overlay_object, hupper]
      cases hlower : lower.fields.get? messagesKey with
      | none => exact ⟨n, rfl, w, hw, hhas⟩
      | some v =>
        rw [Option.merge_some_some]
        by_cases hv : ∃ m, v = .object m
        · obtain ⟨m, rfl⟩ := hv
          rw [overlayEntry_object]
          refine ⟨_, rfl, ?_⟩
          rw [get?_overlayFields (lower.objectAt hlower) (upper.objectAt hupper), hw]
          exact hhas.merge (lower.objectAt hlower) key
        · rw [overlayEntry_of_not_object fun m heq => hv ⟨m, heq⟩]
          exact ⟨n, rfl, w, hw, hhas⟩
    · obtain ⟨above, ordered⟩ := above
      cases above with
      | object fields => exact absurd rfl (habove fields)
      | _ => cases hn
  · rw [overlay_of_not_object hbelow]
    exact ⟨n, hn, w, hw, hhas⟩

/-- The message keys of two layers are those of either. -/
theorem mem_keys_messages_overlay {below above : OrderedValue} {key : String}
    (h : key ∈ Keyed.keys (overlay below above).messages) :
    key ∈ Keyed.keys below.value.messages ∨ key ∈ Keyed.keys above.value.messages := by
  rcases below.object_or with ⟨lower, rfl⟩ | hbelow
  · rcases above.object_or with ⟨upper, rfl⟩ | habove
    · rw [messages, field?_overlay_object] at h
      show key ∈ Keyed.keys (((lower.fields.get? messagesKey).bind Value.fields?).getD []) ∨
        key ∈ Keyed.keys (((upper.fields.get? messagesKey).bind Value.fields?).getD [])
      cases hx : lower.fields.get? messagesKey with
      | none =>
        rw [hx, Option.merge_none_left] at h
        exact .inr h
      | some x =>
        cases hy : upper.fields.get? messagesKey with
        | none =>
          rw [hx, hy, Option.merge_none_right] at h
          exact .inl h
        | some y =>
          rw [hx, hy, Option.merge_some_some] at h
          by_cases hyo : ∃ n, y = .object n
          · obtain ⟨n, rfl⟩ := hyo
            by_cases hxo : ∃ m, x = .object m
            · obtain ⟨m, rfl⟩ := hxo
              rw [overlayEntry_object] at h
              exact (mem_keys_overlayFields (lower.objectAt hx) (upper.objectAt hy)).mp h
            · rw [overlayEntry_of_not_object fun m heq => hxo ⟨m, heq⟩] at h
              exact .inr h
          · have hne := overlayEntry_ne_object x fun n heq => hyo ⟨n, heq⟩
            generalize overlayEntry x y = z at h hne
            cases z with
            | object m => exact absurd rfl (hne m)
            | _ => cases h
    · rw [overlay_not_object _ habove] at h
      exact .inr h
  · rw [overlay_of_not_object hbelow] at h
    exact .inr h

namespace OrderedLineage

/-- Laying a file over its parents keeps what holds of it and survives laying it over anything. -/
theorem mergedOver_induction {P : Value → Prop} {parents : List OrderedLineage}
    (step : ∀ parent ∈ parents, ∀ above : OrderedValue, P above →
      P (Value.overlay parent.merged above)) {own : OrderedValue} (h : P own) :
    P (mergedOver own parents) := by
  induction parents generalizing own with
  | nil =>
    rw [mergedOver_nil]
    exact h
  | cons parent rest ih =>
    obtain ⟨hstep, hsteps⟩ := List.forall_mem_cons.mp step
    rw [mergedOver_cons]
    exact ih hsteps (hstep own h)

theorem says_merged (path : String) {own : OrderedValue} (parents : List OrderedLineage)
    {key : String} {fields : Fields} (h : Says key fields own) :
    Says key fields (node path own parents).merged := by
  rw [merged_node]
  exact mergedOver_induction (fun parent _ _ hsays => hsays.overlay parent.merged) h

/-- Every message key of what a lineage makes up is one of a file. -/
theorem exists_file_of_key {l : OrderedLineage} {key : String}
    (h : key ∈ Keyed.keys l.merged.value.messages) :
    ∃ v ∈ l.lineage.files, key ∈ Keyed.keys v.messages := by
  induction l with
  | node path own parents ih =>
    rw [merged_node] at h
    revert h
    refine mergedOver_induction (P := fun v => key ∈ Keyed.keys v.messages →
      ∃ w ∈ (node path own parents).lineage.files, key ∈ Keyed.keys w.messages) ?_ ?_
    · intro parent hmem above hrest hkey
      rcases mem_keys_messages_overlay hkey with hkey | hkey
      · obtain ⟨v, hv, hkey⟩ := ih parent hmem hkey
        refine ⟨v, ?_, hkey⟩
        rw [Lineage.files_node]
        refine List.mem_cons_of_mem _ (Lineage.mem_filesOfAll_iff.mpr ?_)
        exact ⟨parent, List.mem_map_of_mem hmem, hv⟩
      · exact hrest hkey
    · intro hkey
      refine ⟨own, ?_, hkey⟩
      rw [Lineage.files_node]
      exact List.mem_cons_self

end OrderedLineage

/-! ## The greatest spelling -/

/-- What is said under the greatest spelling of an identifier stands under its canonical key. -/
theorem has_of_greatest {m : OrderedObject} {canonical : Fields}
    (hcanonical : IsCanonical m canonical) {key : String} {id : UInt32}
    (hid : Identifier.parse? key = some id) {w : Value} (hw : m.fields.get? key = some w)
    (greatest : ∀ k ∈ m.fields.keys, Identifier.parse? k = some id → ¬ key < k) {fields : Fields}
    (h : Has fields w) :
    ∃ v, canonical.get? (Identifier.key id) = some v ∧ Has fields v := by
  have hmem : (key, w) ∈ spelled id m := (get?_of_spelled hid).mp hw
  obtain ⟨below, above, hsplit⟩ := List.append_of_mem hmem
  -- Spellings come in order, so nothing stands behind the greatest.
  have hnil : above = [] := by
    rw [List.eq_nil_iff_forall_not_mem]
    intro entry hentry
    have hspelled : entry ∈ spelled id m := by
      rw [hsplit]
      exact List.mem_append_right _ (List.mem_cons_of_mem _ hentry)
    have hordered : Keyed.Ordered (spelled id m) := spelled_ordered m.entries id
    rw [hsplit, Keyed.Ordered, List.pairwise_append] at hordered
    have hlt : key < entry.1 := (List.pairwise_cons.mp hordered.2.1).1 entry hentry
    obtain ⟨hentry, hentryId⟩ := mem_spelled_iff.mp hspelled
    exact greatest entry.1 (Keyed.mem_keys_of_mem hentry) hentryId hlt
  rw [hcanonical.get?_key, hsplit, hnil, List.map_append, List.map_singleton, layered_concat]
  have hbelow : ∀ v ∈ below.map Prod.snd, v.Ordered := by
    apply m.values_of_subset
    intro entry hentry
    have hspelled : entry ∈ spelled id m := by
      rw [hsplit]
      exact List.mem_append_left _ hentry
    exact (mem_spelled_iff.mp hspelled).1
  generalize below.map Prod.snd = values at hbelow
  lift values to List OrderedValue using hbelow
  cases hlayers : layered (values.map OrderedValue.value) with
  | none => exact ⟨w, rfl, h⟩
  | some v => exact ⟨_, rfl, h.overlay ⟨v, layered_ordered values v hlayers⟩⟩

/-! ## Drafts -/

namespace Drafts

/-- A statement begins or joins a draft of its identifier, in which its attributes stand, and leaves
the drafts of other identifiers as they are. -/
theorem exists_of_join (drafts : Drafts) (said : Statement) :
    (∃ d ∈ drafts.join said, d.id = said.id ∧
      ∀ a, a ≠ .signals → ∀ x, said.attributes a = some x → d.attributes a = some x) ∧
    ∀ d ∈ drafts, d.id ≠ said.id → d ∈ drafts.join said := by
  have hattributes : ∀ (d : MessageDraft) a, a ≠ .signals → ∀ x, said.attributes a = some x →
      (d.join said).attributes a = some x := by
    intro d a ha x hx
    rw [MessageDraft.join_attributes d said ha, hx, Option.some_or]
  have hjoined : ∀ {before after : Drafts} {d : MessageDraft}, drafts = before ++ d :: after →
      d.id = said.id → (∃ e ∈ before ++ d.join said :: after, e.id = said.id ∧
        ∀ a, a ≠ .signals → ∀ x, said.attributes a = some x → e.attributes a = some x) ∧
      ∀ e ∈ drafts, e.id ≠ said.id → e ∈ before ++ d.join said :: after := by
    intro before after d hsplit hid
    constructor
    · exact ⟨d.join said, List.mem_append_right _ List.mem_cons_self, hid, hattributes d⟩
    · intro e he hne
      rw [hsplit] at he
      rcases List.mem_append.mp he with he | he
      · exact List.mem_append_left _ he
      rcases List.mem_cons.mp he with rfl | he
      · exact absurd hid hne
      · exact List.mem_append_right _ (List.mem_cons_of_mem _ he)
  have hstep := step_join drafts said
  generalize drafts.join said = joined at hstep
  cases hstep with
  | joined split _ same _ _ => exact hjoined split same
  | adopted split _ same _ _ _ => exact hjoined split same
  | only split _ same _ => exact hjoined split same
  | begun _ _ =>
    constructor
    · exact ⟨_, List.mem_append_right _ (List.mem_singleton_self _), rfl, hattributes _⟩
    · exact fun d hd _ => List.mem_append_left _ hd

/-- A draft stays as it is while what is merged is about other identifiers. -/
theorem mem_of_foldlM {entries : List (String × Value)} {drafts drafts' : Drafts}
    (h : entries.foldlM add drafts = .ok drafts') {d : MessageDraft} (hd : d ∈ drafts)
    (others : ∀ entry ∈ entries, Identifier.parse? entry.1 ≠ some d.id) : d ∈ drafts' := by
  induction entries generalizing drafts with
  | nil =>
    cases h
    exact hd
  | cons entry rest ih =>
    obtain ⟨hentry, hrest⟩ := List.forall_mem_cons.mp others
    rw [List.foldlM_cons] at h
    obtain ⟨next, hnext, h⟩ := Except.bind_eq_ok_iff.mp h
    refine ih h ?_ hrest
    rcases add_eq_ok hnext with rfl | ⟨said, hread, rfl⟩
    · exact hd
    · refine (exists_of_join drafts said).2 d hd fun heq => hentry ?_
      obtain ⟨id, hid, -⟩ := Except.bind_eq_ok_iff.mp hread
      rw [heq, Statement.id_of_read hread hid, identify_eq_ok_iff.mp hid]

/-- What an object says under the key of an identifier stands in a draft, if what is merged later is
about other identifiers. -/
theorem exists_of_foldlM {below drafts : Drafts} {messages canonical : Fields}
    (hcanonical : IsCanonical messages canonical) (h : canonical.foldlM add below = .ok drafts)
    {id : UInt32} {stated : Fields}
    (hstated : canonical.get? (Identifier.key id) = some (.object stated)) :
    ∃ d ∈ drafts, d.id = id ∧ ∀ a, a ≠ .signals → ∀ x,
      (Call.attributes (Identifier.key id, .object stated)) a = some x →
        d.attributes a = some x := by
  obtain ⟨before, after, hsplit⟩ := List.append_of_mem (Keyed.mem_of_get?_eq_some hstated)
  -- Canonical keys are distinct, so no later entry is about the identifier.
  have hlater : ∀ entry ∈ after, Identifier.parse? entry.1 ≠ some id := by
    intro entry hentry hid
    have hmem : entry ∈ canonical := by
      rw [hsplit]
      exact List.mem_append_right _ (List.mem_cons_of_mem _ hentry)
    obtain ⟨other, hother⟩ := hcanonical.keys entry.1 (Keyed.mem_keys_of_mem hmem)
    have hordered := hcanonical.ordered
    rw [hother, Identifier.parse?_key, Option.some.injEq] at hid
    rw [hsplit, Keyed.Ordered, List.pairwise_append] at hordered
    have hlt := (List.pairwise_cons.mp hordered.2.1).1 entry hentry
    rw [hother, hid] at hlt
    exact Std.lt_irrefl hlt
  rw [hsplit, List.foldlM_append] at h
  obtain ⟨mid, -, h⟩ := Except.bind_eq_ok_iff.mp h
  rw [List.foldlM_cons] at h
  obtain ⟨joined, hjoin, h⟩ := Except.bind_eq_ok_iff.mp h
  let call : Call := (Identifier.key id, .object stated)
  have hid : call.said.id = id := Call.id_said_key id (.object stated)
  obtain ⟨-, rfl⟩ := (add_object (c := call) rfl).mp hjoin
  obtain ⟨⟨d, hd, hdid, hattributes⟩, -⟩ := exists_of_join mid call.said
  rw [hid] at hdid
  refine ⟨d, mem_of_foldlM h hd fun entry hentry => ?_, hdid, hattributes⟩
  rw [hdid]
  exact hlater entry hentry

end Drafts

/-! ## Assembled sets -/

theorem field?_of_get?_messages {v w : Value} {key : String}
    (h : Keyed.get? v.messages key = some w) :
    v.field? messagesKey = some (.object v.messages) := by
  rw [messages] at h ⊢
  cases hfield : v.field? messagesKey with
  | none =>
    rw [hfield] at h
    cases h
  | some u =>
    rw [hfield] at h
    cases u with
    | object m => rfl
    | _ => cases h

/-- The messages of a file that is read are those that stand in its value. -/
theorem Declaration.SetFile.messages_eq {v : Value} {file : SetFile}
    (h : SetFile.read v = .ok file) {m : Fields}
    (hm : v.field? messagesKey = some (.object m)) : file.messages = m := by
  obtain ⟨layer, hlayer, rfl⟩ := SetFile.read_eq_ok h
  cases v with
  | object fields =>
    have hmessages := SetAttribute.ofFields_messages hm
    rw [← Layer.read_object hlayer] at hmessages
    show (layer .messages).getD [] = m
    rw [hmessages]
    rfl
  | _ => cases hm

namespace Catalog

variable {c : Catalog} {settings : Settings} {name : String}

/-- A child's word counts: if no file of its lineage spells an identifier by a text greater than the
child's, then in the set the child's plain attributes of that message stand, whatever its ancestors
and its mappings say. -/
theorem child_stands {path : String} {own : Value} {parents : List Lineage}
    (hlineage : (c.lineage name).outcome = .ok (.node path own parents)) {s : MessageSet}
    (hs : (c.assemble settings name).outcome = .ok s) {id : UInt32} {key : String}
    (hid : Identifier.parse? key = some id) {fields : Fields}
    (hfields : Keyed.get? own.messages key = some (.object fields))
    (greatest : ∀ v ∈ (node path own parents).files, ∀ k ∈ Keyed.keys v.messages,
      Identifier.parse? k = some id → ¬ key < k) :
    ∃ (draft : MessageDraft) (bus : Option Bus.Ref) (refs : List Signal.Ref), draft.id = id ∧
      draft.resolve bus refs ∈ s.messages ∧
      ∀ a, a ≠ .signals → ∀ v x, fields.get? (Record.key a) = some v → v.IsPlain → v ≠ .null →
        Record.read a v = .ok x → draft.attributes a = some x := by
  obtain ⟨hownOrdered, hparents⟩ := Lineage.ordered_node_iff.mp (lineageBelow_ordered hlineage)
  lift own to OrderedValue using hownOrdered
  lift parents to List OrderedLineage using hparents
  obtain ⟨lineage, hlineage', hs⟩ := Run.bind_outcome_eq_ok_iff.mp hs
  obtain rfl := Except.ok.inj (hlineage.symm.trans hlineage')
  obtain ⟨file, hfile, hs⟩ := Run.bind_outcome_eq_ok_iff.mp hs
  obtain ⟨-, -, hs⟩ := Run.bind_outcome_eq_ok_iff.mp hs
  obtain ⟨d, hd, hs⟩ := Run.bind_outcome_eq_ok_iff.mp hs
  obtain ⟨requests, -, rfl⟩ := SetDraft.resolve_eq_ok_iff.mp hs
  obtain ⟨-, contributed, hmessages⟩ := draft_eq_ok hd
  have hown := field?_of_get?_messages hfields
  have hfieldsOrdered := ordered_of_get? (ordered_field? own.ordered hown) hfields
  let lineage := OrderedLineage.node path own parents
  -- The word is in the file itself, and so in what the lineage makes up.
  have hsays : Says key fields own :=
    ⟨_, hown, _, hfields, ⟨fields, hfieldsOrdered⟩, rfl, fun _ _ ha _ => ha⟩
  obtain ⟨m, hm, w, hw, hhas⟩ := OrderedLineage.says_merged path parents hsays
  rw [SetFile.messages_eq (readRecord_eq_ok_iff.mp hfile) hm] at hmessages
  obtain ⟨below, -, hmessages⟩ := Except.bind_eq_ok_iff.mp hmessages
  obtain ⟨canonical, hcanonical, hmessages⟩ := Except.bind_eq_ok_iff.mp hmessages
  have hcanonical := canonicalKeys_eq_ok_iff.mp hcanonical
  -- All keys come from files, so the spelling is the greatest there too.
  have hgreatest : ∀ k ∈ m.keys, Identifier.parse? k = some id → ¬ key < k := by
    intro k hk hkid
    have hmerged : lineage.merged.value.messages = m := by
      rw [messages, hm]
      rfl
    obtain ⟨v, hv, hkv⟩ := OrderedLineage.exists_file_of_key (hmerged ▸ hk)
    exact greatest v hv k hkv hkid
  obtain ⟨v, hv, upper, rfl, hupper⟩ := has_of_greatest
    (m := ⟨m, ordered_field? lineage.merged.ordered hm⟩) hcanonical hid hw hgreatest hhas
  obtain ⟨draft, hdraft, hdid, hattributes⟩ :=
    Drafts.exists_of_foldlM hcanonical hmessages hv
  obtain ⟨bus, refs, hmem⟩ := exists_mem_arrange d.buses
    (SetDraft.mem_orderedMessages.mpr hdraft)
  refine ⟨draft, bus, refs, hdid, hmem, fun a ha v x hv hplain hnull hread => ?_⟩
  exact hattributes a ha x ((Call.attributes_eq_some_iff ha).mpr ⟨v, hupper _ v hv hplain, hnull,
    hread⟩)

end Catalog

end CanTables
