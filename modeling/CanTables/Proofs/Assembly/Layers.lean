import CanTables.Proofs.Assembly.Gather
import CanTables.Proofs.Assembly.Respell
import CanTables.Proofs.Network.Under

/-!
# CanTables.Proofs.Assembly.Layers — the message objects of a set

A message set is made of message objects: those of its mappings in the order of the references, each
stamped with the bus and the flag of its reference, and then those of the message set file itself.
`Catalog.messageLayers` says which objects each message is made of; every message is what the
objects of its layers say last (`Catalog.messages_of_assemble`).
-/

namespace CanTables

open Declaration Document Network Positions Schema Sorting Value

/-- A message object of a set before anything is stamped on it, with the reference of the mapping
that it comes from.  The objects of the message set file come from no reference. -/
structure MessageObject where
  reference : Option MappingReference
  key : String
  value : Value

namespace MessageObject

/-- The object as it is merged, under its key. -/
def call (o : MessageObject) : Call :=
  (o.key, (o.reference.map fun r => r.stamp o.value).getD o.value)

/-- What the object says once it is stamped. -/
def said (o : MessageObject) : Statement := o.call.said

/-- The object is one indeed; any other value says nothing. -/
def speaks (o : MessageObject) : Bool := o.value.fields?.isSome

end MessageObject

/-! ## Files in order -/

theorem Schema.Reader.object_ordered {v : OrderedValue} {fields : Fields}
    (h : Reader.object v = .ok fields) : (Value.object fields).Ordered := by
  rw [← Reader.object_eq_ok h]
  exact v.ordered

theorem Declaration.SetFile.messages_ordered {v : OrderedValue} {file : SetFile}
    (h : SetFile.read v = .ok file) : (object file.messages).Ordered := by
  obtain ⟨layer, hlayer, rfl⟩ := SetFile.read_eq_ok h
  cases hmessages : layer .messages with
  | none => exact OrderedObject.empty.ordered
  | some messages =>
    obtain ⟨w, hread⟩ := Layer.read_ordered hlayer hmessages
    exact Reader.object_ordered hread

theorem Declaration.MappingFile.messages_ordered {v : OrderedValue} {file : MappingFile}
    (h : MappingFile.read v = .ok file) : (object file.messages).Ordered := by
  obtain ⟨layer, hlayer, h⟩ := Except.bind_eq_ok_iff.mp h
  cases h
  show (object ((layer .messages).getD [])).Ordered
  cases hmessages : layer .messages with
  | none => exact OrderedObject.empty.ordered
  | some messages =>
    obtain ⟨w, hread⟩ := Layer.read_ordered hlayer hmessages
    exact Reader.object_ordered hread

/-- A mapping is left out altogether, as it is disabled. -/
def Settings.leavesOut (settings : Settings) (r : MappingReference) : Bool :=
  !r.enabled && settings.skipDisabledMappings

/-! ## Objects are in order -/

theorem canonicalKeys_ordered (messages : OrderedObject) {canonical : Fields}
    (h : canonicalKeys messages = .ok canonical) : (object canonical).Ordered := by
  have hvalues := messages.values_ordered
  generalize messages.fields = entries at h hvalues
  induction entries using List.reverseRecOn generalizing canonical with
  | nil =>
    cases h
    exact OrderedObject.empty.ordered
  | append_singleton rest entry ih =>
    rw [canonicalKeys, List.foldlM_append] at h
    obtain ⟨below, hbelow, h⟩ := Except.bind_eq_ok_iff.mp h
    rw [List.foldlM_cons] at h
    obtain ⟨above, habove, h⟩ := Except.bind_eq_ok_iff.mp h
    cases h
    have hentry := hvalues entry (List.mem_append_right _ List.mem_cons_self)
    have hbelow' := ih hbelow fun other hother => hvalues other (List.mem_append_left _ hother)
    unfold addCanonical at habove
    split at habove
    · cases habove
    · cases habove
      exact ordered_object_upsert hbelow' _ hentry fun v hv => ordered_overlay hv hentry

namespace Network

variable {x : DatabaseSignal} {m : DatabaseMessage} {d : Database} {id : UInt32}

theorem ordered_of_describe {key : String} {v : Value} (h : x.describe id key = .ok v) :
    v.Ordered := by
  obtain ⟨m, rfl, -⟩ := DatabaseSignal.fields_of_describe h
  exact m.ordered

theorem ordered_of_describeSignals {names : List String} {found : Fields}
    (h : m.describeSignals id names = .ok found) : (object found).Ordered := by
  refine Except.foldlM_induction (P := fun found => (object found).Ordered) ?_
    OrderedObject.empty.ordered h
  intro found name found' hfound hstep
  split at hstep
  · cases hstep
    exact hfound
  · obtain ⟨v, hv, rfl⟩ := Except.map_eq_ok_iff.mp hstep
    exact ordered_object_insert hfound name (ordered_of_describe hv)

theorem ordered_of_extract {path : String} {messages found : Fields}
    (h : (d.extract path messages).outcome = .ok found) : (object found).Ordered := by
  rw [Database.extract, Run.outcome_foldlM] at h
  refine Except.foldlM_induction (P := fun found => (object found).Ordered) ?_
    OrderedObject.empty.ordered h
  intro found entry found' hfound hstep
  obtain ⟨id, -, hstep⟩ := Run.bind_outcome_eq_ok_iff.mp hstep
  split at hstep
  · obtain ⟨-, -, hstep⟩ := Run.bind_outcome_eq_ok_iff.mp hstep
    cases hstep
    exact hfound
  · obtain ⟨signals, hsignals, hstep⟩ := Run.bind_outcome_eq_ok_iff.mp hstep
    split at hstep
    · obtain ⟨-, -, hstep⟩ := Run.bind_outcome_eq_ok_iff.mp hstep
      cases hstep
      exact hfound
    · cases hstep
      exact ordered_object_insert hfound _
        (describedMessage _ ⟨signals, ordered_of_describeSignals hsignals⟩).ordered

theorem ordered_of_importMessages {path : String} {text : Except Fault String}
    {messages imported : Fields}
    (h : (importMessages path text messages).outcome = .ok imported) :
    (object imported).Ordered := by
  unfold importMessages at h
  split at h
  · obtain ⟨-, -, h⟩ := Run.bind_outcome_eq_ok_iff.mp h
    cases h
    exact OrderedObject.empty.ordered
  · obtain ⟨text, -, h⟩ := Run.bind_outcome_eq_ok_iff.mp h
    split at h
    · cases h
    · exact ordered_of_extract h

end Network

namespace Catalog

variable {c : Catalog}

theorem importUnder_ordered {origin : Origin} {database : Option String} (messages : OrderedObject)
    {merged : Fields} (h : (c.importUnder origin database messages).outcome = .ok merged) :
    (object merged).Ordered := by
  cases database with
  | none =>
    cases h
    exact messages.ordered
  | some name =>
    obtain ⟨found, -, h⟩ := Run.bind_outcome_eq_ok_iff.mp h
    obtain ⟨imported, himported, h⟩ := Run.bind_outcome_eq_ok_iff.mp h
    obtain ⟨-, -, h⟩ := Run.bind_outcome_eq_ok_iff.mp h
    cases h
    exact (OrderedObject.overlay ⟨imported, ordered_of_importMessages himported⟩ messages).ordered

/-! ## The objects of a set -/

/-- The objects of a mapping file, under canonical keys and over its network database. -/
def mappingObjects (c : Catalog) (set : String) (r : MappingReference) :
    Except Fault (List MessageObject) := do
  let (found, value) ← c.readValue r.mapping
  let file ← readRecord MappingFile.read ("mapping " ++ found.path) value
  let messages ← canonicalKeys file.messages
  let messages ← (c.importUnder (.ofSet set) r.database messages).outcome
  return messages.map fun (key, value) => ⟨some r, key, value⟩

/-- The objects of a message set: those of its mappings that are not left out, in the order of the
references, and then those of its file and the file's ancestors. -/
def messageObjects (c : Catalog) (settings : Settings) (name : String) :
    Except Fault (List MessageObject) := do
  let lineage ← (c.lineage name).outcome
  let file ← readRecord SetFile.read ("message set " ++ lineage.path) lineage.merged
  let loaded := file.mappings.filter fun r => !settings.leavesOut r
  let contributed ← loaded.mapM (c.mappingObjects (file.name.getD usualSetName))
  let own ← canonicalKeys file.messages
  return contributed.flatten ++ own.map fun (key, value) => ⟨none, key, value⟩

/-- The objects that each message of a set is made of, lowest first, in the order of the message
list. -/
def messageLayers (c : Catalog) (settings : Settings) (name : String) :
    Except Fault (List (List MessageObject)) := do
  let objects ← c.messageObjects settings name
  return sortBy (fun a b =>
      !MessageDraft.before (Drafts.draftOf MessageObject.said b) (Drafts.draftOf MessageObject.said a))
    (Drafts.gather MessageObject.said (objects.filter MessageObject.speaks))

variable {settings : Settings} {name : String}

theorem mappingObjects_of_contributionOf {set : String} {r : MappingReference}
    {contribution : Contribution} (h : c.contributionOf set r = .ok contribution) :
    ∃ objects, c.mappingObjects set r = .ok objects ∧
      contribution.messages = objects.map MessageObject.call := by
  obtain ⟨⟨found, value⟩, hread, h⟩ := Except.bind_eq_ok_iff.mp h
  obtain ⟨file, hfile, h⟩ := Except.bind_eq_ok_iff.mp h
  obtain ⟨messages, hmessages, h⟩ := Except.bind_eq_ok_iff.mp h
  obtain ⟨imported, himport, h⟩ := Except.bind_eq_ok_iff.mp h
  cases h
  refine ⟨imported.map fun (key, value) => ⟨some r, key, value⟩, ?_, ?_⟩
  · refine Except.bind_eq_ok_iff.mpr ⟨(found, value), hread, ?_⟩
    refine Except.bind_eq_ok_iff.mpr ⟨file, hfile, ?_⟩
    refine Except.bind_eq_ok_iff.mpr ⟨messages, hmessages, ?_⟩
    exact Except.bind_eq_ok_iff.mpr ⟨imported, himport, rfl⟩
  · rw [List.map_map]
    rfl

/-- The mappings that are not left out contribute one after the other. -/
theorem contributions_of_mappings {set : String} {hasBus : String → Bool}
    {references : List MappingReference} {contribution : Contribution}
    (h : (c.mappings settings set hasBus references).outcome = .ok contribution) :
    ∃ parts, (references.filter fun r => !settings.leavesOut r).mapM (c.contributionOf set) =
        .ok parts ∧ contribution = .concat parts := by
  obtain ⟨parts, hparts, hconcat⟩ := Run.bind_outcome_eq_ok_iff.mp h
  cases hconcat
  rw [Run.outcome_mapM, Except.mapM_eq_ok_iff] at hparts
  clear h
  induction hparts with
  | nil => exact ⟨[], rfl, rfl⟩
  | @cons r part references parts hpart _ ih =>
    obtain ⟨kept, hkept, hconcat⟩ := ih
    rw [mapping_outcome] at hpart
    cases hout : settings.leavesOut r with
    | true =>
      have hskip : (!r.enabled && settings.skipDisabledMappings) = true := hout
      -- What is left out contributes nothing, so what the others contribute is all.
      rw [if_pos hskip] at hpart
      cases hpart
      rw [List.filter_cons_of_neg (by rw [hout]; nofun)]
      exact ⟨kept, hkept, hconcat⟩
    | false =>
      have hkeep : ¬ (!r.enabled && settings.skipDisabledMappings) = true :=
        Bool.eq_false_iff.mp hout
      rw [if_neg hkeep] at hpart
      obtain ⟨-, -, hpart⟩ := Except.bind_eq_ok_iff.mp hpart
      rw [List.filter_cons_of_pos (by rw [hout]; rfl), List.mapM_cons, hpart, Except.ok_bind, hkept]
      exact ⟨part :: kept, rfl, congrArg part.append hconcat⟩

/-- The mappings contribute their objects, stamped. -/
theorem mappingObjects_of_mappings {set : String} {hasBus : String → Bool}
    {references : List MappingReference} {contribution : Contribution}
    (h : (c.mappings settings set hasBus references).outcome = .ok contribution) :
    ∃ contributed,
      (references.filter fun r => !settings.leavesOut r).mapM (c.mappingObjects set) =
        .ok contributed ∧
      contribution.messages = contributed.flatten.map MessageObject.call := by
  obtain ⟨parts, hparts, rfl⟩ := contributions_of_mappings h
  rw [Except.mapM_eq_ok_iff] at hparts
  clear h
  generalize references.filter (fun r => !settings.leavesOut r) = kept at hparts ⊢
  induction hparts with
  | nil => exact ⟨[], rfl, rfl⟩
  | @cons r part kept parts hpart _ ih =>
    obtain ⟨contributed, hcontributed, hmessages⟩ := ih
    obtain ⟨objects, hobjects, hmap⟩ := mappingObjects_of_contributionOf hpart
    refine ⟨objects :: contributed, ?_, ?_⟩
    · rw [List.mapM_cons, hobjects, Except.ok_bind, hcontributed]
      rfl
    · show part.messages ++ (Contribution.concat parts).messages = _
      rw [hmessages, hmap, ← List.map_append]
      rfl

theorem mappingObjects_ordered {set : String} {r : MappingReference} {objects : List MessageObject}
    (h : c.mappingObjects set r = .ok objects) : ∀ o ∈ objects, o.value.Ordered := by
  obtain ⟨⟨found, value⟩, hread, h⟩ := Except.bind_eq_ok_iff.mp h
  obtain ⟨file, hfile, h⟩ := Except.bind_eq_ok_iff.mp h
  obtain ⟨messages, hmessages, h⟩ := Except.bind_eq_ok_iff.mp h
  obtain ⟨imported, himport, h⟩ := Except.bind_eq_ok_iff.mp h
  cases h
  lift value to OrderedValue using readValue_ordered hread
  have hordered := MappingFile.messages_ordered (readRecord_eq_ok_iff.mp hfile)
  lift messages to OrderedObject using canonicalKeys_ordered ⟨_, hordered⟩ hmessages
  lift imported to OrderedObject using importUnder_ordered messages himport
  exact List.forall_mem_map.mpr fun entry hentry => imported.values_ordered entry hentry

theorem messageObjects_ordered {objects : List MessageObject}
    (h : c.messageObjects settings name = .ok objects) : ∀ o ∈ objects, o.value.Ordered := by
  obtain ⟨lineage, hlineage, h⟩ := Except.bind_eq_ok_iff.mp h
  obtain ⟨file, hfile, h⟩ := Except.bind_eq_ok_iff.mp h
  obtain ⟨contributed, hcontributed, h⟩ := Except.bind_eq_ok_iff.mp h
  obtain ⟨own, hown, h⟩ := Except.bind_eq_ok_iff.mp h
  cases h
  intro o ho
  rcases List.mem_append.mp ho with ho | ho
  · obtain ⟨part, hpart, ho⟩ := List.mem_flatten.mp ho
    obtain ⟨r, -, hr⟩ := exists_left_of_forall₂ (Except.mapM_eq_ok_iff.mp hcontributed) hpart
    exact mappingObjects_ordered hr o ho
  · lift lineage to OrderedLineage using lineageBelow_ordered hlineage
    have hordered := SetFile.messages_ordered (v := lineage.merged) (readRecord_eq_ok_iff.mp hfile)
    lift own to OrderedObject using canonicalKeys_ordered ⟨_, hordered⟩ hown
    obtain ⟨entry, hentry, rfl⟩ := List.mem_map.mp ho
    exact own.values_ordered entry hentry

/-- An assembled set is that of a draft into which the objects of the set were merged. -/
theorem messageObjects_of_assemble {s : MessageSet}
    (h : (c.assemble settings name).outcome = .ok s) :
    ∃ objects d requests, c.messageObjects settings name = .ok objects ∧
      (objects.map MessageObject.call).foldlM Drafts.add [] = .ok d.messages ∧
      s = SetDraft.resolveWith d requests := by
  obtain ⟨d, ⟨lineage, file, hlineage, hfile, hd⟩, hresolve, -⟩ := exists_hasDraft_of_assemble h
  obtain ⟨requests, -, rfl⟩ := SetDraft.resolve_eq_ok_iff.mp hresolve
  obtain ⟨-, -, hd⟩ := Run.bind_outcome_eq_ok_iff.mp hd
  obtain ⟨contribution, hcontribution, hd⟩ := Run.bind_outcome_eq_ok_iff.mp hd
  obtain ⟨drafts, hdrafts, hd⟩ := Run.bind_outcome_eq_ok_iff.mp hd
  cases hd
  obtain ⟨contributed, hcontributed, hmessages⟩ := mappingObjects_of_mappings hcontribution
  obtain ⟨below, hbelow, hdrafts⟩ := Except.bind_eq_ok_iff.mp hdrafts
  obtain ⟨own, hown, hdrafts⟩ := Except.bind_eq_ok_iff.mp hdrafts
  refine ⟨contributed.flatten ++ own.map fun (key, value) => ⟨none, key, value⟩, _, requests, ?_,
    ?_, rfl⟩
  · refine Except.bind_eq_ok_iff.mpr ⟨lineage, hlineage, ?_⟩
    refine Except.bind_eq_ok_iff.mpr ⟨file, hfile, ?_⟩
    refine Except.bind_eq_ok_iff.mpr ⟨contributed, hcontributed, ?_⟩
    exact Except.bind_eq_ok_iff.mpr ⟨own, hown, rfl⟩
  · rw [List.map_append, ← hmessages, List.foldlM_append, hbelow, Except.ok_bind, List.map_map]
    have hcall : (MessageObject.call ∘ fun (entry : String × Value) =>
        (⟨none, entry.1, entry.2⟩ : MessageObject)) = id := rfl
    rw [hcall, List.map_id]
    exact hdrafts

end Catalog

/-! ## What the objects of a message make of it -/

namespace MessageObject

theorem call_snd_of_speaks {o : MessageObject} (h : o.speaks = true) :
    ∃ fields, o.call.2 = object fields := by
  obtain ⟨reference, key, value⟩ := o
  obtain ⟨fields, hfields⟩ := Option.isSome_iff_exists.mp h
  cases value with
  | object fields =>
    cases reference with
    | none => exact ⟨fields, rfl⟩
    | some r => exact ⟨_, rfl⟩
  | _ => cases hfields

/-- A value that is no object says nothing. -/
theorem add_of_not_speaks {o : MessageObject} (h : o.speaks = false) {drafts drafts' : Drafts}
    (hadd : drafts.add o.call = .ok drafts') : drafts' = drafts := by
  obtain ⟨reference, key, value⟩ := o
  have hcall : call ⟨reference, key, value⟩ = (key, value) := by
    cases reference with
    | none => rfl
    | some r =>
      cases value with
      | object fields => cases h
      | _ => rfl
  rw [hcall] at hadd
  obtain ⟨said?, hread, hadd⟩ := Except.bind_eq_ok_iff.mp hadd
  obtain ⟨id, -, hread⟩ := Except.bind_eq_ok_iff.mp hread
  cases value with
  | object fields => cases h
  | _ =>
    obtain ⟨-, -, hread⟩ := Except.bind_eq_ok_iff.mp hread
    cases hread
    exact (Except.ok.inj hadd).symm

/-- Merging objects joins what those say that are objects indeed. -/
theorem drafts_of_foldlM {objects : List MessageObject} {drafts drafts' : Drafts}
    (h : (objects.map call).foldlM Drafts.add drafts = .ok drafts') :
    drafts' = ((objects.filter speaks).map said).foldl Drafts.join drafts := by
  induction objects generalizing drafts with
  | nil => exact (Except.ok.inj h).symm
  | cons o rest ih =>
    rw [List.map_cons, List.foldlM_cons] at h
    obtain ⟨joined, hadd, hrest⟩ := Except.bind_eq_ok_iff.mp h
    cases hspeaks : o.speaks with
    | true =>
      obtain ⟨fields, hfields⟩ := call_snd_of_speaks hspeaks
      obtain ⟨-, rfl⟩ := (Drafts.add_object hfields).mp hadd
      rw [List.filter_cons_of_pos hspeaks]
      exact ih hrest
    | false =>
      obtain rfl := add_of_not_speaks hspeaks hadd
      rw [List.filter_cons_of_neg (Bool.eq_false_iff.mp hspeaks)]
      exact ih hrest

end MessageObject

/-- Some objects make up a message: everything about it is what they say last. -/
structure Message.MadeOf (m : Message) (layers : List MessageObject) : Prop where
  merges : m.Merges (layers.map MessageObject.said)
  /-- The objects are about this message. -/
  about : ∀ o ∈ layers, o.said.id = m.id ∧ (o.said.bus = none ∨ o.said.bus = m.busName)
  ordered : ∀ o ∈ layers, o.value.Ordered
  speaks : ∀ o ∈ layers, o.speaks = true

theorem Message.MadeOf.exists_object {m : Message} {layers : List MessageObject}
    (h : m.MadeOf layers) {o : MessageObject} (ho : o ∈ layers) :
    ∃ said : OrderedObject, o.value = said.toValue := by
  have hordered := h.ordered o ho
  have hspeaks := h.speaks o ho
  rw [MessageObject.speaks] at hspeaks
  generalize o.value = v at hordered hspeaks
  cases v with
  | object fields => exact ⟨⟨fields, hordered⟩, rfl⟩
  | _ => cases hspeaks

/-- The messages are those of the drafts, in their order. -/
theorem arrange_resolved (buses : Keyed String BusEntry) (message signal : Nat) (drafts : Drafts) :
    List.Forall₂ (fun (m : Message) (d : MessageDraft) => ∃ bus refs, m = d.resolve bus refs)
      ((arrange buses message signal drafts).map Prod.fst) drafts := by
  induction drafts generalizing message signal with
  | nil => exact .nil
  | cons d rest ih => exact .cons ⟨_, _, rfl⟩ (ih _ _)

namespace Catalog

variable {c : Catalog} {settings : Settings} {name : String}

/-- The messages of an assembled set and the objects that each of them is made of.  Every object of
the set is an object of one message, in the order in which the objects are merged. -/
theorem messages_of_assemble {s : MessageSet} (h : (c.assemble settings name).outcome = .ok s) :
    ∃ objects layers, c.messageObjects settings name = .ok objects ∧
      c.messageLayers settings name = .ok layers ∧
      layers.flatten.Perm (objects.filter MessageObject.speaks) ∧
      (∀ layer ∈ layers, layer.Sublist objects) ∧
      List.Forall₂ Message.MadeOf s.messages layers := by
  obtain ⟨objects, d, requests, hobjects, hmerged, rfl⟩ := messageObjects_of_assemble h
  have hdrafts := MessageObject.drafts_of_foldlM hmerged
  have hgathered := Drafts.gathered MessageObject.said (objects.filter MessageObject.speaks)
  generalize hgroups : Drafts.gather MessageObject.said (objects.filter MessageObject.speaks) =
    groups at hgathered
  obtain ⟨layers, hlayers⟩ : ∃ layers, layers = sortBy (fun a b => !MessageDraft.before
      (Drafts.draftOf MessageObject.said b) (Drafts.draftOf MessageObject.said a)) groups :=
    ⟨_, rfl⟩
  have hperm : layers.Perm groups := hlayers ▸ sortBy_perm _ _
  have hordered : d.orderedMessages = layers.map (Drafts.draftOf MessageObject.said) := by
    rw [SetDraft.orderedMessages, hdrafts, ← hgathered.drafts, sortBy_map, hlayers]
  refine ⟨objects, layers, hobjects, ?_, hperm.flatten.trans hgathered.perm, fun layer hlayer => ?_,
    ?_⟩
  · rw [messageLayers, hobjects, Except.ok_bind, hgroups, hlayers]
    rfl
  · exact (hgathered.sublist layer (hperm.mem_iff.mp hlayer)).trans List.filter_sublist
  · have hmessages : List.Forall₂ (fun (m : Message) (e : MessageDraft) =>
        ∃ bus refs, m = e.resolve bus refs) (d.resolveWith requests).messages d.orderedMessages :=
      arrange_resolved d.buses 0 0 d.orderedMessages
    rw [hordered, List.forall₂_map_right_iff] at hmessages
    have hmadeOf : ∀ (m : Message), ∀ layer ∈ layers,
        (∃ bus refs, m = (Drafts.draftOf MessageObject.said layer).resolve bus refs) →
          m.MadeOf layer := by
      rintro m layer hlayer ⟨bus, refs, rfl⟩
      have hgroup := hperm.mem_iff.mp hlayer
      have hsub := hgathered.sublist layer hgroup
      refine ⟨MessageDraft.resolve_merges _ _ bus refs, hgathered.about layer hgroup,
        fun o ho => ?_, fun o ho => ?_⟩
      · exact messageObjects_ordered hobjects o (List.mem_of_mem_filter (hsub.subset ho))
      · exact List.of_mem_filter (hsub.subset ho)
    exact forall₂_of_mem hmessages fun m layer _ hlayer => hmadeOf m layer hlayer

end Catalog

end CanTables
