import CanTables.Proofs.Assembly.Groups
import CanTables.Proofs.Assembly.Sound
import CanTables.Proofs.Assembly.Statement

/-!
# CanTables.Proofs.Assembly.Merge — sets made of layers

A message set is made of message objects that are merged one after the other (`SetDraft.build`).
Every message of the result belongs to one group of objects, and everything about it was said last
by an object of its group: objects of other groups neither add to it nor get in the way.  So the
order of objects matters within a group only.
-/

namespace CanTables

open Declaration Document Positions Schema Sorting

/-! ## What is said last -/

/-- What the statements of a group say last about an attribute of their message. -/
def saidLast (group : List Statement) (a : MessageAttribute) : Option (Record.Carrier a) :=
  (group.filterMap (·.attributes a)).getLast?

/-- Everything that the statements of a group say about a signal, in order. -/
def saidOfSignal (group : List Statement) (name : String) : List SignalLayer :=
  (group.flatMap (·.signals)).filterMap fun entry => if entry.1 = name then some entry.2 else none

/-- What the statements of a group say last about an attribute of a signal. -/
def saidLastOfSignal (group : List Statement) (name : String) (a : SignalAttribute) :
    Option (Record.Carrier a) :=
  ((saidOfSignal group name).filterMap (· a)).getLast?

/-- Every attribute of a message is what a group says last, or has its default. -/
structure Message.Merges (m : Message) (group : List Statement) : Prop where
  busName : m.busName = saidLast group .bus
  name : m.name = saidLast group .name
  enabled : m.enabled = (saidLast group .enabled).getD true
  bitNumberingInverted : m.bitNumberingInverted = saidLast group .bitNumberingInverted
  handlers : m.handlers = (saidLast group .handlers).getD []
  maxFrequency : m.maxFrequency = saidLast group .maxFrequency
  maxSignalFrequency : m.maxSignalFrequency = saidLast group .maxSignalFrequency
  forceSendChanged : m.forceSendChanged = (saidLast group .forceSendChanged).getD false
  forceSendChangedSignals :
    m.forceSendChangedSignals = (saidLast group .forceSendChangedSignals).getD false

/-- Every attribute of a signal is what a group says last under its name, or has its default. -/
structure Signal.Merges (x : Signal) (group : List Statement) : Prop where
  genericName : x.genericName = (saidLastOfSignal group x.name .genericName).getD x.name
  bitPosition : x.bitPosition = saidLastOfSignal group x.name .bitPosition
  bitSize : x.bitSize = saidLastOfSignal group x.name .bitSize
  factor : x.factor = (saidLastOfSignal group x.name .factor).getD (.ofInt .double 1)
  offset : x.offset = (saidLastOfSignal group x.name .offset).getD (.zero .double false)
  minValue : x.minValue = (saidLastOfSignal group x.name .minValue).getD (.zero .double false)
  maxValue : x.maxValue = (saidLastOfSignal group x.name .maxValue).getD (.zero .double false)
  enabled : x.enabled = (saidLastOfSignal group x.name .enabled).getD true
  ignore : x.ignore = (saidLastOfSignal group x.name .ignore).getD false
  states : x.states =
    (StateNames.ofListings ((saidLastOfSignal group x.name .states).getD [])).states
  maxFrequency : x.maxFrequency = saidLastOfSignal group x.name .maxFrequency
  sendSame : x.sendSame = (saidLastOfSignal group x.name .sendSame).getD true
  forceSendChanged : x.forceSendChanged = saidLastOfSignal group x.name .forceSendChanged
  writable : x.writable = (saidLastOfSignal group x.name .writable).getD false
  decoder : x.decoder = saidLastOfSignal group x.name .decoder
  encoder : x.encoder = saidLastOfSignal group x.name .encoder
  bitNumberingInverted :
    x.bitNumberingInverted = saidLastOfSignal group x.name .bitNumberingInverted

/-- The statements that are about the message with a key, in order. -/
def groupOf (layers : List Statement) (key : MessageKey) : List Statement :=
  layers.filter fun said => groupKey layers said = key

/-- The key of a message of a set. -/
def Message.key (m : Message) : MessageKey := (m.busName, m.id)

/-- A set has one message for every group of statements, made of what its group says last. -/
structure MessageSet.Merges (s : MessageSet) (layers : List Statement) : Prop where
  messages_nodup : (s.messages.map Message.key).Nodup
  mem_messages_iff : ∀ key, key ∈ s.messages.map Message.key ↔
    ∃ said ∈ layers, groupKey layers said = key
  message : ∀ m ∈ s.messages, m.Merges (groupOf layers m.key)
  /-- The names of a message's signals are those that its group says something about, each once. -/
  mem_signals_iff : ∀ m ∈ s.messages, ∀ name,
    (∃ r ∈ m.signals, ∃ x, s.signal? r = some x ∧ x.name = name) ↔
      ∃ said ∈ groupOf layers m.key, name ∈ said.signals.map Prod.fst
  signals_distinct : ∀ m ∈ s.messages, m.signals.Pairwise fun q r =>
    ∃ x y, s.signal? q = some x ∧ s.signal? r = some y ∧ x.name ≠ y.name
  signal : ∀ m ∈ s.messages, ∀ r ∈ m.signals,
    ∃ x, s.signal? r = some x ∧ x.Merges (groupOf layers m.key)

/-! ## Signals of a draft -/

namespace MessageDraft

theorem mem_keys_foldl_addSignal {said : List (String × SignalLayer)} {name : String} :
    name ∈ Keyed.keys (said.foldl addSignal []) ↔ name ∈ said.map Prod.fst := by
  induction said using List.reverseRecOn with
  | nil => rfl
  | append_singleton said entry ih =>
    rw [List.foldl_concat, addSignal, Keyed.mem_keys_upsert, ih, List.map_append, List.mem_append,
      List.map_singleton, List.mem_singleton, or_comm]

/-- Every attribute of a signal is the one that was said last under its name. -/
theorem get?_foldl_addSignal (said : List (String × SignalLayer)) (name : String)
    (a : SignalAttribute) :
    ((said.foldl addSignal []).get? name).bind (· a) =
      ((said.filterMap fun entry => if entry.1 = name then some entry.2 else none).filterMap
        (· a)).getLast? := by
  induction said using List.reverseRecOn with
  | nil => rfl
  | append_singleton said entry ih =>
    have hordered := foldl_addSignal_ordered .empty said
    rw [List.foldl_concat, addSignal, hordered.get?_upsert, List.filterMap_append,
      List.filterMap_append, List.getLast?_append, ← ih]
    by_cases hname : name = entry.1
    · subst hname
      simp only [if_true, List.filterMap_cons, List.filterMap_nil, Option.bind_some]
      rw [Layer.overlay]
      cases hlayer : entry.2 a with
      | none => cases (said.foldl addSignal []).get? entry.1 <;> rfl
      | some x => rfl
    · simp only [if_neg hname, if_neg (Ne.symm hname), List.filterMap_cons, List.filterMap_nil]
      rfl

theorem mem_signal_names_iff (id : UInt32) (group : List Statement) (owner : Message.Ref)
    (name : String) :
    (∃ x ∈ (ofStatements id group).resolveSignals owner, x.name = name) ↔
      ∃ said ∈ group, name ∈ said.signals.map Prod.fst := by
  have hkeys : name ∈ Keyed.keys (ofStatements id group).signals ↔
      ∃ said ∈ group, name ∈ said.signals.map Prod.fst := by
    rw [ofStatements_signals, mem_keys_foldl_addSignal, List.map_flatMap, List.mem_flatMap]
  rw [← hkeys, Keyed.keys, List.mem_map]
  constructor
  · rintro ⟨x, hx, rfl⟩
    obtain ⟨entry, hentry, rfl⟩ := mem_resolveSignals_iff.mp hx
    exact ⟨entry, hentry, rfl⟩
  · rintro ⟨entry, hentry, rfl⟩
    exact ⟨_, mem_resolveSignals_iff.mpr ⟨entry, hentry, rfl⟩, rfl⟩

theorem signal_names_distinct (id : UInt32) (group : List Statement) (owner : Message.Ref) :
    ((ofStatements id group).resolveSignals owner).Pairwise fun x y => x.name ≠ y.name := by
  have hordered := foldl_addSignal_ordered .empty (group.flatMap (·.signals))
  rw [← ofStatements_signals id] at hordered
  have hnames : (((ofStatements id group).resolveSignals owner).map (·.name)).Perm
      (Keyed.keys (ofStatements id group).signals) := by
    refine ((sortBy_perm _ _).map _).trans (List.Perm.of_eq ?_)
    rw [List.map_map]
    rfl
  exact List.pairwise_map.mp (hnames.nodup_iff.mpr hordered.nodup_keys)

/-- A resolved signal of a group's draft is what the group says last. -/
theorem resolveSignal_merges {id : UInt32} {group : List Statement} {owner : Message.Ref}
    {entry : String × SignalLayer} (h : entry ∈ (ofStatements id group).signals) :
    (resolveSignal owner entry.1 entry.2).Merges group := by
  obtain ⟨name, layer⟩ := entry
  rw [ofStatements_signals] at h
  have hordered := foldl_addSignal_ordered .empty (group.flatMap (·.signals))
  have hget := hordered.get?_eq_some_iff.mpr h
  have hlayer : layer = saidLastOfSignal group name := by
    funext a
    rw [saidLastOfSignal, saidOfSignal, ← get?_foldl_addSignal, hget]
    rfl
  rw [hlayer]
  constructor <;> rfl

/-- A resolved message of a group's draft is what the group says last. -/
theorem resolve_merges (id : UInt32) (group : List Statement) (bus : Option Bus.Ref)
    (signals : List Signal.Ref) : ((ofStatements id group).resolve bus signals).Merges group where
  busName := ofStatements_attributes id group (a := .bus) nofun
  name := ofStatements_attributes id group (a := .name) nofun
  enabled := congrArg (Option.getD · true) (ofStatements_attributes id group (a := .enabled) nofun)
  bitNumberingInverted := ofStatements_attributes id group (a := .bitNumberingInverted) nofun
  handlers := congrArg (Option.getD · []) (ofStatements_attributes id group (a := .handlers) nofun)
  maxFrequency := ofStatements_attributes id group (a := .maxFrequency) nofun
  maxSignalFrequency := ofStatements_attributes id group (a := .maxSignalFrequency) nofun
  forceSendChanged := congrArg (Option.getD · false)
    (ofStatements_attributes id group (a := .forceSendChanged) nofun)
  forceSendChangedSignals := congrArg (Option.getD · false)
    (ofStatements_attributes id group (a := .forceSendChangedSignals) nofun)

end MessageDraft

/-! ## Drafts of all groups -/

namespace GroupedAs

variable {layers : List Statement} {keys : List MessageKey} {drafts : Drafts}

theorem key_of_mem (h : GroupedAs layers layers keys drafts) (groupable : Groupable layers)
    {key : MessageKey} (hkey : key ∈ keys) :
    ((draftFor layers layers key).bus, (draftFor layers layers key).id) = key := by
  obtain ⟨said, hsaid, rfl⟩ := (h.mem_iff key).mp hkey
  rw [groupable.draftFor_bus hsaid, draftFor_id]

theorem drafts_keys (h : GroupedAs layers layers keys drafts) (groupable : Groupable layers) :
    drafts.map (fun d => (d.bus, d.id)) = keys := by
  rw [h.drafts_eq, List.map_map]
  conv_rhs => rw [← List.map_id keys]
  exact List.map_congr_left fun key hkey => h.key_of_mem groupable hkey

end GroupedAs

namespace SetDraft

variable {d : SetDraft} {requests : List Request} {layers : List Statement}

theorem messages_keys : ((d.resolveWith requests).messages.map Message.key).Perm
    (d.messages.map fun draft => (draft.bus, draft.id)) := by
  have hmessages : (d.resolveWith requests).messages.map Message.key =
      d.orderedMessages.map fun draft => (draft.bus, draft.id) := messages_map_key
  rw [hmessages]
  exact (sortBy_perm _ _).map _

/-- A message of the set was resolved from the draft of its group. -/
theorem message?_of_grouped (groupable : Groupable layers)
    (hd : d.messages = layers.foldl Drafts.join []) {m : Message}
    (hm : m ∈ (d.resolveWith requests).messages) :
    ∃ k, m = (draftFor layers layers m.key).resolve m.bus m.signals ∧
      List.Forall₂ (fun r x => (d.resolveWith requests).signal? r = some x) m.signals
        ((draftFor layers layers m.key).resolveSignals k) := by
  obtain ⟨keys, hkeys⟩ := groupable.foldl_join
  obtain ⟨k, hk⟩ := MessageSet.exists_message?_of_mem hm
  obtain ⟨draft, hdraft, hresolve, hlisted⟩ := message?_resolveWith hk
  have hdraft := mem_orderedMessages.mp (List.mem_of_getElem? hdraft)
  rw [hd, hkeys.drafts_eq] at hdraft
  obtain ⟨key, hkey, rfl⟩ := List.mem_map.mp hdraft
  have hmkey : m.key = key := by
    rw [hresolve]
    exact hkeys.key_of_mem groupable hkey
  rw [hmkey]
  refine ⟨k, ?_, hlisted⟩
  conv_lhs => rw [hresolve]
  rw [hresolve]
  rfl

/-- The set of grouped statements has one message for every group, made of what its group says
last. -/
theorem resolveWith_merges (groupable : Groupable layers)
    (hd : d.messages = layers.foldl Drafts.join []) : (d.resolveWith requests).Merges layers := by
  obtain ⟨keys, hkeys⟩ := groupable.foldl_join
  have hperm : ((d.resolveWith requests).messages.map Message.key).Perm keys := by
    have hdrafts := hkeys.drafts_keys groupable
    rw [← hd] at hdrafts
    exact hdrafts ▸ messages_keys
  refine ⟨hperm.nodup_iff.mpr hkeys.nodup, fun key => ?_, fun m hm => ?_, fun m hm name => ?_,
    fun m hm => ?_, fun m hm r hr => ?_⟩
  · rw [hperm.mem_iff, hkeys.mem_iff]
  · obtain ⟨k, hresolve, -⟩ := message?_of_grouped groupable hd hm
    have hmerges := MessageDraft.resolve_merges m.key.2 (groupOf layers m.key) m.bus m.signals
    have hm' : (MessageDraft.ofStatements m.key.2 (groupOf layers m.key)).resolve m.bus m.signals =
        m := hresolve.symm
    rwa [hm'] at hmerges
  · obtain ⟨k, -, hlisted⟩ := message?_of_grouped groupable hd hm
    have hnames := MessageDraft.mem_signal_names_iff m.key.2 (groupOf layers m.key) k name
    rw [← hnames]
    constructor
    · rintro ⟨r, hr, x, hx, hname⟩
      obtain ⟨y, hy, hr⟩ := exists_right_of_forall₂ hlisted hr
      cases hx.symm.trans hr
      exact ⟨x, hy, hname⟩
    · rintro ⟨x, hx, hname⟩
      obtain ⟨r, hr, hrx⟩ := exists_left_of_forall₂ hlisted hx
      exact ⟨r, hr, x, hrx, hname⟩
  · obtain ⟨k, -, hlisted⟩ := message?_of_grouped groupable hd hm
    exact pairwise_of_forall₂ hlisted (MessageDraft.signal_names_distinct _ _ k)
  · obtain ⟨k, -, hlisted⟩ := message?_of_grouped groupable hd hm
    obtain ⟨x, hx, hr⟩ := exists_right_of_forall₂ hlisted hr
    obtain ⟨entry, hentry, rfl⟩ := MessageDraft.mem_resolveSignals_iff.mp hx
    exact ⟨_, hr, MessageDraft.resolveSignal_merges hentry⟩

theorem orderedMessages_eq_of_perm {d d' : SetDraft} (perm : d.messages.Perm d'.messages)
    (distinct : (d.messages.map fun draft => (draft.bus, draft.id)).Nodup) :
    d.orderedMessages = d'.orderedMessages :=
  sortBy_key_eq_of_perm (Linear.optionLt.thenLt Linear.of_lt)
    (fun draft : MessageDraft => (draft.bus, draft.id)) perm distinct

/-- Only the order of messages in the set matters, not the order of their drafts. -/
theorem resolve_eq_of_orderedMessages {d : SetDraft} {drafts drafts' : Drafts}
    (h : ({ d with messages := drafts } : SetDraft).orderedMessages =
      ({ d with messages := drafts' } : SetDraft).orderedMessages) :
    ({ d with messages := drafts } : SetDraft).resolve =
      ({ d with messages := drafts' } : SetDraft).resolve := by
  unfold resolve resolveWith
  rw [h]

/-! ## Sets made of message objects -/

/-- The set that message objects make up, merged one after the other into a draft that has no
messages yet. -/
def build (d : SetDraft) (calls : List Call) : Run MessageSet := do
  let messages ← Run.lift (calls.foldlM Drafts.add [])
  ({ d with messages } : SetDraft).resolve

/-- Message objects whose grouping does not depend on their order make up a set that has one
message for every group, made of what its group says last; and they make up the same set in every
order that keeps the order within each group. -/
theorem build_of_groupable (d : SetDraft) (requests : d.requests = []) {calls : List Call}
    (objects : ∀ c ∈ calls, ∃ fields, c.2 = .object fields)
    (merged : ∃ drafts, calls.foldlM Drafts.add [] = .ok drafts)
    (groupable : Groupable (calls.map Call.said)) :
    (∃ s, (d.build calls).outcome = .ok s ∧ s.Merges (calls.map Call.said)) ∧
      ∀ calls' : List Call, calls.Perm calls' →
        (∀ key, (calls'.filter fun c => groupKey (calls.map Call.said) c.said = key) =
          calls.filter fun c => groupKey (calls.map Call.said) c.said = key) →
        d.build calls' = d.build calls := by
  obtain ⟨drafts, hdrafts⟩ := merged
  obtain ⟨hreads, rfl⟩ := (Drafts.foldlM_add_eq_ok_iff objects).mp hdrafts
  have hbuild : ∀ {l : List Call} {drafts : Drafts}, l.foldlM Drafts.add [] = .ok drafts →
      d.build l = ({ d with messages := drafts } : SetDraft).resolve := by
    intro l drafts hl
    rw [build, hl, Run.lift_ok_bind]
  rw [hbuild hdrafts]
  constructor
  · exact ⟨_, resolve_eq_ok_iff.mpr ⟨[], by rw [requests]; rfl, rfl⟩,
      resolveWith_merges groupable rfl⟩
  · intro calls' perm kept
    have objects' : ∀ c ∈ calls', ∃ fields, c.2 = .object fields := fun c hc =>
      objects c (perm.mem_iff.mpr hc)
    have hreads' : ∀ c ∈ calls', Statement.read c.1 c.2 = .ok (some c.said) := fun c hc =>
      hreads c (perm.mem_iff.mpr hc)
    have kept' : ∀ key, ((calls'.map Call.said).filter fun said =>
        groupKey (calls.map Call.said) said = key) =
        (calls.map Call.said).filter fun said => groupKey (calls.map Call.said) said = key := by
      intro key
      rw [List.filter_map, List.filter_map]
      exact congrArg (List.map Call.said) (kept key)
    rw [hbuild ((Drafts.foldlM_add_eq_ok_iff objects').mpr ⟨hreads', rfl⟩)]
    obtain ⟨keys, hkeys⟩ := groupable.foldl_join
    have distinct := hkeys.drafts_keys groupable ▸ hkeys.nodup
    have hdrafts_perm := groupable.foldl_join_perm (perm.map Call.said) kept'
    exact (resolve_eq_of_orderedMessages (orderedMessages_eq_of_perm hdrafts_perm distinct)).symm

/-- The set of nothing but message objects. -/
def bare : SetDraft := ⟨"set", false, [], [], [], [], [], [], []⟩

/-- Objects about an identifier on two buses, and about one for which some objects name no bus. -/
def mixed : List Call := [
  ("0x20", .object [("bus", .text "hs"), ("enabled", .bool false)]),
  ("0x10", .object [("name", .text "first")]),
  ("0x20", .object [("bus", .text "ms"), ("name", .text "other")]),
  ("16", .object [("bus", .text "hs"), ("signals", .object [("gear", .object [])])]),
  ("0X10", .object [("name", .text "last"),
    ("signals", .object [("gear", .object [("bit_size", .int 4)])])])]

/-- The same objects, the first two the other way round. -/
def swapped : List Call :=
  ("0x10", .object [("name", .text "first")]) ::
    ("0x20", .object [("bus", .text "hs"), ("enabled", .bool false)]) :: mixed.drop 2

theorem build_of_groupable_mixed : ∃ s, (bare.build mixed).outcome = .ok s ∧
    (bare.build swapped).outcome = .ok s ∧ s.Merges (mixed.map Call.said) ∧
    s.messages.map Message.key = [(some "hs", 0x10), (some "hs", 0x20), (some "ms", 0x20)] := by
  have hany : (bare.build mixed).outcome.toOption.any (fun s => s.messages.map Message.key =
      [(some "hs", 0x10), (some "hs", 0x20), (some "ms", 0x20)]) = true := by
    decide +kernel
  obtain ⟨s, hs, hkeys⟩ := Except.exists_of_any_toOption hany
  obtain ⟨drafts, hdrafts, -⟩ := Run.bind_outcome_eq_ok_iff.mp hs
  have objects : ∀ c ∈ mixed, ∃ fields, c.2 = .object fields := by
    simp [mixed]
  obtain ⟨⟨s', hs', hmerges⟩, hreorder⟩ := build_of_groupable bare rfl objects ⟨drafts, hdrafts⟩
    (by decide +kernel)
  cases hs.symm.trans hs'
  refine ⟨s, hs, ?_, hmerges, of_decide_eq_true hkeys⟩
  rw [hreorder swapped (.swap _ _ _) fun key => ?_]
  · exact hs
  · -- The two objects that change places are about two messages.
    have hne : groupKey (mixed.map Call.said) (Call.said mixed[0]) ≠
        groupKey (mixed.map Call.said) (Call.said mixed[1]) := by
      decide +kernel
    show (mixed[1] :: mixed[0] :: mixed.drop 2).filter _ =
      (mixed[0] :: mixed[1] :: mixed.drop 2).filter _
    by_cases hkey : groupKey (mixed.map Call.said) (Call.said mixed[0]) = key
    · have hkey' : groupKey (mixed.map Call.said) (Call.said mixed[1]) ≠ key := hkey ▸ hne.symm
      simp only [List.filter_cons, hkey, hkey', decide_false, Bool.false_eq_true, if_false]
    · simp only [List.filter_cons, hkey, decide_false, Bool.false_eq_true, if_false]

end SetDraft

end CanTables
