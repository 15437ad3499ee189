import CanTables.Assembly.Resolve
import CanTables.Proofs.MessageSet.Sound
import CanTables.Proofs.Order.Keyed
import CanTables.Proofs.Order.Positions
import CanTables.Proofs.Order.Sorting

/-!
# CanTables.Proofs.Assembly.Arrange — which position everything gets

`arrange` numbers messages and signals on from a first one.  A message stands where its draft
stands among the ordered drafts; the signals that it lists are the next ones that are free
(`SetDraft.message?_resolveWith`).

Buses stand where their names stand in name order, so that looking a name up and looking at the name
of the bus found are inverse to each other (`busRef?_eq_some_iff`).
-/

namespace CanTables

open Declaration Positions Sorting

/-! ## Numbering on -/

section Numbering

variable (buses : Keyed String BusEntry)

/-- The messages stand where their drafts stand. -/
theorem arrange_keys (message signal : Nat) (drafts : Drafts) :
    (arrange buses message signal drafts).map (fun p => (p.1.busName, p.1.id)) =
      drafts.map fun d => (d.bus, d.id) := by
  induction drafts generalizing message signal with
  | nil => rfl
  | cons d rest ih =>
    rw [arrange, List.map_cons, List.map_cons, ih]
    rfl

/-- The lists of signals, one after the other, number on from the first signal. -/
theorem arrange_signals (message signal : Nat) (drafts : Drafts) :
    (arrange buses message signal drafts).flatMap (fun p => p.1.signals) =
      (List.range' signal ((arrange buses message signal drafts).flatMap Prod.snd).length).map
        Signal.Ref.mk := by
  induction drafts generalizing message signal with
  | nil => rfl
  | cons d rest ih =>
    rw [arrange, List.flatMap_cons, List.flatMap_cons, ih, List.length_append,
      List.range'_append_1.symm, List.map_append]
    rfl

variable {buses} in
/-- A message has the attributes of the draft at its position, and lists as many signals as were put
behind those of the messages before. -/
theorem exists_of_arrange_eq {message signal : Nat} {drafts : Drafts}
    {before after : List (Message × List Signal)} {p : Message × List Signal}
    (h : arrange buses message signal drafts = before ++ p :: after) :
    ∃ d, drafts[before.length]? = some d ∧ p.2 = d.resolveSignals ⟨message + before.length⟩ ∧
      p.1 = d.resolve (d.bus.bind (busRef? buses))
        ((List.range' (signal + (before.flatMap Prod.snd).length) p.2.length).map
          Signal.Ref.mk) := by
  induction drafts generalizing message signal before with
  | nil => exact absurd h.symm (List.append_ne_nil_of_right_ne_nil _ (List.cons_ne_nil _ _))
  | cons d rest ih =>
    rw [arrange] at h
    cases before with
    | nil =>
      obtain ⟨rfl, -⟩ := List.cons.inj h
      exact ⟨d, rfl, rfl, rfl⟩
    | cons q before =>
      rw [List.cons_append] at h
      obtain ⟨rfl, hrest⟩ := List.cons.inj h
      obtain ⟨e, he, hsignals, hmessage⟩ := ih hrest
      refine ⟨e, he, ?_, ?_⟩
      · rw [hsignals, List.length_cons, Nat.add_assoc, Nat.add_comm 1]
      · rw [hmessage, List.flatMap_cons, List.length_append, Nat.add_assoc]

/-- Every draft becomes a message. -/
theorem exists_mem_arrange {message signal : Nat} {drafts : Drafts} {d : MessageDraft}
    (h : d ∈ drafts) : ∃ bus refs, d.resolve bus refs ∈
      (arrange buses message signal drafts).map Prod.fst := by
  induction drafts generalizing message signal with
  | nil => cases h
  | cons e rest ih =>
    rw [arrange, List.map_cons]
    rcases List.mem_cons.mp h with rfl | h
    · exact ⟨_, _, List.mem_cons_self⟩
    · obtain ⟨bus, refs, hmem⟩ := ih h
      exact ⟨bus, refs, List.mem_cons_of_mem _ hmem⟩

end Numbering

/-! ## Buses by name -/

theorem busRef?_eq_some_iff (buses : OrderedKeyed String BusEntry) {name : String} {r : Bus.Ref} :
    busRef? buses name = some r ↔ ∃ entry, buses.entries[r.index]? = some (name, entry) := by
  unfold busRef?
  constructor
  · intro hr
    obtain ⟨i, hi, rfl⟩ := Option.map_eq_some_iff.mp hr
    obtain ⟨hlt, hname, -⟩ := List.findIdx?_eq_some_iff_getElem.mp hi
    refine ⟨buses.entries[i].2, ?_⟩
    rw [List.getElem?_eq_getElem hlt, ← beq_iff_eq.mp hname]
  · rintro ⟨entry, hentry⟩
    obtain ⟨hr, hname⟩ := List.getElem?_eq_some_iff.mp hentry
    refine Option.map_eq_some_iff.mpr ⟨r.index, ?_, rfl⟩
    refine List.findIdx?_eq_some_iff_getElem.mpr ⟨hr, ?_, fun j hj heq => ?_⟩
    · rw [hname]
      exact beq_self_eq_true name
    · have hlt := List.pairwise_iff_getElem.mp buses.ordered j r.index (Nat.lt_trans hj hr) hr hj
      rw [hname, beq_iff_eq.mp heq] at hlt
      exact Std.lt_irrefl hlt

/-! ## Messages of a bus -/

theorem mem_messagesOn_iff {messages : List Message} {bus : Bus.Ref} {k : Message.Ref} :
    k ∈ messagesOn messages bus ↔ ∃ m, messages[k.index]? = some m ∧ m.bus = some bus := by
  unfold messagesOn
  rw [List.mem_filterMap]
  constructor
  · rintro ⟨⟨m, i⟩, hmem, hk⟩
    rw [List.mk_mem_zipIdx_iff_getElem?] at hmem
    simp only [Option.ite_none_right_eq_some, Option.some.injEq] at hk
    obtain ⟨hbus, rfl⟩ := hk
    exact ⟨m, hmem, hbus⟩
  · rintro ⟨m, hm, hbus⟩
    exact ⟨(m, k.index), List.mk_mem_zipIdx_iff_getElem?.mpr hm, if_pos hbus⟩

/-- Of two messages of a bus the one that is listed first stands first. -/
theorem messagesOn_pairwise {R : Message → Message → Prop} {messages : List Message}
    (h : messages.Pairwise R) (bus : Bus.Ref) :
    (messagesOn messages bus).Pairwise fun k l =>
      ∃ m n, messages[k.index]? = some m ∧ messages[l.index]? = some n ∧
        m.bus = some bus ∧ n.bus = some bus ∧ R m n := by
  unfold messagesOn
  rw [List.pairwise_filterMap, List.pairwise_iff_getElem]
  intro i j hi hj hij k hk l hl
  rw [List.length_zipIdx] at hi hj
  simp only [List.getElem_zipIdx, Nat.zero_add, Option.ite_none_right_eq_some,
    Option.some.injEq] at hk hl
  obtain ⟨hkbus, rfl⟩ := hk
  obtain ⟨hlbus, rfl⟩ := hl
  exact ⟨messages[i], messages[j], List.getElem?_eq_getElem hi, List.getElem?_eq_getElem hj,
    hkbus, hlbus, List.pairwise_iff_getElem.mp h i j hi hj hij⟩

/-! ## The set of a draft -/

theorem names_foldl_add_ordered {s : StateNames} (h : s.names.Ordered)
    (listings : List (Int × String)) : (listings.foldl StateNames.add s).names.Ordered := by
  induction listings generalizing s with
  | nil => exact h
  | cons listing rest ih =>
    refine ih ?_
    unfold StateNames.add
    split
    · exact h
    · exact h.upsert _ _

/-- Along the states of a signal values strictly increase. -/
theorem states_ordered (raw : Keyed String (List Int)) :
    (StateNames.ofListings raw).states.Pairwise fun a b => a.value < b.value := by
  have h := names_foldl_add_ordered Keyed.ordered_nil (s := .empty) (StateNames.listings raw)
  exact List.pairwise_map.mpr h

namespace MessageDraft

/-- A signal of a draft has its message and the states that its layer lists. -/
theorem mem_resolveSignals_iff {owner : Message.Ref} {d : MessageDraft} {x : Signal} :
    x ∈ d.resolveSignals owner ↔ ∃ entry ∈ d.signals, x = resolveSignal owner entry.1 entry.2 := by
  unfold resolveSignals
  rw [mem_sortBy, List.mem_map]
  exact exists_congr fun entry => and_congr_right fun _ => eq_comm

theorem resolveSignals_sorted (owner : Message.Ref) (d : MessageDraft) :
    (d.resolveSignals owner).Pairwise fun x y => x.genericName ≤ y.genericName :=
  sortBy_byKey_pairwise Signal.genericName _

end MessageDraft

namespace SetDraft

variable {d : SetDraft} {requests : List Request}

/-- The messages in order, each with its signals. -/
def arranged (d : SetDraft) : List (Message × List Signal) := arrange d.buses 0 0 d.orderedMessages

theorem resolveWith_messages : (d.resolveWith requests).messages = d.arranged.map Prod.fst := rfl

/-- The messages of a set stand where its ordered drafts stand. -/
theorem messages_map_key : (d.resolveWith requests).messages.map (fun m => (m.busName, m.id)) =
    d.orderedMessages.map fun draft => (draft.bus, draft.id) := by
  rw [← arrange_keys d.buses 0 0 d.orderedMessages, resolveWith_messages, List.map_map]
  rfl

theorem mem_orderedMessages {draft : MessageDraft} :
    draft ∈ d.orderedMessages ↔ draft ∈ d.messages := mem_sortBy

/-- A bus stands where its name stands, and lists the messages that are on it. -/
theorem bus?_resolveWith {r : Bus.Ref} {b : Bus} :
    (d.resolveWith requests).bus? r = some b ↔ ∃ name entry, d.buses[r.index]? = some (name, entry) ∧
      b = resolveBus name entry (messagesOn (d.resolveWith requests).messages r) := by
  show (List.map _ d.buses.zipIdx)[r.index]? = some b ↔ _
  rw [List.getElem?_map, List.getElem?_zipIdx]
  cases h : d.buses[r.index]? with
  | none => simp
  | some bus =>
    simp only [Option.map_some, Option.some.injEq, Nat.zero_add]
    constructor
    · rintro rfl
      exact ⟨bus.1, bus.2, rfl, rfl⟩
    · rintro ⟨name, entry, rfl, rfl⟩
      rfl

/-- A message is that of the draft at its position, and lists the signals of that draft. -/
theorem message?_resolveWith {k : Message.Ref} {m : Message}
    (h : (d.resolveWith requests).message? k = some m) :
    ∃ draft, d.orderedMessages[k.index]? = some draft ∧
      m = draft.resolve (draft.bus.bind (busRef? d.buses)) m.signals ∧
      List.Forall₂ (fun r x => (d.resolveWith requests).signal? r = some x) m.signals
        (draft.resolveSignals k) := by
  rw [MessageSet.message?, resolveWith_messages, List.getElem?_map] at h
  obtain ⟨⟨m', signals⟩, hp, rfl⟩ := Option.map_eq_some_iff.mp h
  obtain ⟨before, after, hsplit, hlen⟩ := exists_append_of_getElem? hp
  obtain ⟨draft, hdraft, hsignals, hmessage⟩ := exists_of_arrange_eq hsplit
  simp only [hlen, Nat.zero_add] at hdraft hsignals hmessage
  refine ⟨draft, hdraft, ?_, ?_⟩
  · rw [hmessage]
    rfl
  · rw [← hsignals, hmessage]
    refine List.forall₂_iff_get.mpr ⟨?_, fun j hj hj' => ?_⟩
    · show (List.map _ (List.range' _ _)).length = _
      rw [List.length_map, List.length_range']
    · have hthere := getElem?_flatMap_append_cons Prod.snd before (m', signals) after hj'
      rw [List.getElem?_eq_getElem hj', ← hsplit] at hthere
      show (d.resolveWith requests).signals[((List.map _ (List.range' _ _)).get ⟨j, hj⟩).index]? = _
      rw [List.get_eq_getElem, List.getElem_map, List.getElem_range', Nat.one_mul]
      exact hthere

/-- Every draft becomes a message, which lists the signals of the draft. -/
theorem exists_message?_resolveWith {draft : MessageDraft} (h : draft ∈ d.messages) :
    ∃ k m, (d.resolveWith requests).message? k = some m ∧
      m = draft.resolve (draft.bus.bind (busRef? d.buses)) m.signals ∧
      List.Forall₂ (fun r x => (d.resolveWith requests).signal? r = some x) m.signals
        (draft.resolveSignals k) := by
  obtain ⟨i, hi⟩ := List.mem_iff_getElem?.mp (mem_orderedMessages.mpr h)
  have hlength : (d.resolveWith requests).messages.length = d.orderedMessages.length := by
    simpa only [List.length_map] using congrArg List.length (messages_map_key (d := d))
  have hlt : i < (d.resolveWith requests).messages.length :=
    hlength ▸ (List.getElem?_eq_some_iff.mp hi).1
  obtain ⟨m, hm⟩ : ∃ m, (d.resolveWith requests).message? ⟨i⟩ = some m :=
    ⟨_, List.getElem?_eq_getElem hlt⟩
  obtain ⟨draft', hdraft', hmessage, hlisted⟩ := message?_resolveWith hm
  obtain rfl := Option.some.inj (hi.symm.trans hdraft')
  exact ⟨⟨i⟩, m, hm, hmessage, hlisted⟩

end SetDraft

end CanTables
