import CanTables.Proofs.Tables.Place
import Mathlib.Data.List.Sort

/-!
# CanTables.Proofs.Tables.Agree — tables that agree with their set

Rows of the message table and rows of the signal table refer to each other by position: a signal to
the row of its message, a message to the rows of its signals.  Both sides are made in separate
passes, each of which leaves out what is disabled.  `SetTables.Agrees` says that they fit together,
and that the rows are those of the enabled messages and signals of the set.

`MessageSet.tables_agree`: the tables of a sound set agree with it.
-/

namespace CanTables

open Positions Sorting

/-! ## Agreement -/

/-- A row of the message table may stand in front of another: its bus comes first, and on one bus
its identifier does. -/
def MessageRow.Precedes (a b : MessageRow) : Prop :=
  a.busIndex < b.busIndex ∨ a.busIndex = b.busIndex ∧ a.message.id < b.message.id

namespace SetTables

/-- The bus table has the valid buses of a set, each once, by controller. -/
structure BusesAgree (t : SetTables) (s : MessageSet) : Prop where
  mem_buses_iff : ∀ r, r ∈ t.buses.map (·.ref) ↔ s.busValid r = true
  buses_nodup : (t.buses.map (·.ref)).Nodup
  bus_row : ∀ row ∈ t.buses, s.bus? row.ref = some row.bus
  controllers_sorted : t.buses.Pairwise fun a b => a.controller ≤ b.controller

/-- The message table has the enabled messages of a set, each once, bus by bus, and on one bus by
identifier. -/
structure MessagesAgree (t : SetTables) (s : MessageSet) : Prop where
  mem_messages_iff : ∀ k, k ∈ t.messages.map (·.ref) ↔ s.messageEnabled k = true
  messages_nodup : (t.messages.map (·.ref)).Nodup
  message_row : ∀ row ∈ t.messages, s.message? row.ref = some row.message
  messages_sorted : t.messages.Pairwise MessageRow.Precedes
  /-- A message row refers to the row of its bus. -/
  message_bus : ∀ row ∈ t.messages, ∃ bus, t.buses[row.busIndex]? = some bus ∧
    row.message.bus = some bus.ref

/-- The signal table has the enabled signals of a set, each once, and fits the message table. -/
structure SignalsAgree (t : SetTables) (s : MessageSet) : Prop where
  mem_signals_iff : ∀ r, r ∈ t.signals.map (·.ref) ↔ s.signalEnabled r = true
  signals_nodup : (t.signals.map (·.ref)).Nodup
  signal_row : ∀ row ∈ t.signals, s.signal? row.ref = some row.signal
  /-- A signal row has the position and the size of its signal in the emitted numbering. -/
  signal_bits : ∀ row ∈ t.signals,
    s.signalPosition row.signal = .ok (some row.bitPosition) ∧ row.signal.bitSize = some row.bitSize
  /-- A signal row refers to the row of its message. -/
  signal_message : ∀ row ∈ t.signals, ∃ message, t.messages[row.messageIndex]? = some message ∧
    message.ref = row.signal.message
  /-- A message row lists the signal rows that refer to it. -/
  messageIndex_eq_iff : ∀ (j k : Nat) message signal, t.messages[j]? = some message →
    t.signals[k]? = some signal → (signal.messageIndex = j ↔ k ∈ message.signals)
  /-- The signal rows of the first message are followed by those of the second, and so on. -/
  signals_tile : t.messages.flatMap (·.signals) = List.range t.signals.length
  /-- The signal rows with states are numbered in their order. -/
  states_numbered : t.signals.filterMap (fun row => row.states.map (·.index)) =
    List.range t.stateRows.length
  /-- A signal row has the first states of its signal, where the signal has any. -/
  states_prefix : ∀ row ∈ t.signals, (row.states = none ↔ row.signal.states = []) ∧
    ∀ block, row.states = some block → block.states <+: row.signal.states ∧
      block.states.length = min row.signal.states.length maxSignalStates

/-- The tables of a set agree with the set and with one another. -/
structure Agrees (t : SetTables) (s : MessageSet) : Prop
    extends t.BusesAgree s, t.MessagesAgree s, t.SignalsAgree s where
  name_eq : t.name = s.name

end SetTables

/-! ## Rows of the message table -/

/-- A message row is made of a candidate, and refers to the row of its bus. -/
structure MessageRow.IsOf (s : MessageSet) (entry : Message.Ref × Message) (row : MessageRow) :
    Prop where
  ref_eq : row.ref = entry.1
  message_eq : row.message = entry.2
  bus : ∃ r, entry.2.bus = some r ∧ s.busIndex? r = some row.busIndex

/-- A signal row is made of a candidate, and refers to the row of its message. -/
structure SignalRow.IsOf (s : MessageSet) (messages : List Message.Ref)
    (entry : Signal.Ref × Signal) (row : SignalRow) : Prop where
  ref_eq : row.ref = entry.1
  signal_eq : row.signal = entry.2
  message : messages[row.messageIndex]? = some entry.2.message
  position : s.signalPosition entry.2 = .ok (some row.bitPosition)
  size : entry.2.bitSize = some row.bitSize
  states : row.states.map (·.states) =
    if entry.2.states.isEmpty then none else some (entry.2.states.take maxSignalStates)

namespace MessageSet

variable {s : MessageSet}

theorem messageRows_length {messages : List PlacedMessage} {signals : List PlacedSignal} :
    (s.messageRows messages signals).length = messages.length := by
  rw [messageRows, List.length_map, List.length_zipIdx]

theorem messageRows_getElem? {messages : List PlacedMessage} {signals : List PlacedSignal}
    {j : Nat} {row : MessageRow} (h : (s.messageRows messages signals)[j]? = some row) :
    ∃ p, messages[j]? = some p ∧ row.ref = p.ref ∧ row.message = p.message ∧
      row.busIndex = p.busIndex ∧ row.signals = signalsOf signals j := by
  rw [messageRows, List.getElem?_map, List.getElem?_zipIdx] at h
  obtain ⟨⟨p, i⟩, hp, rfl⟩ := Option.map_eq_some_iff.mp h
  obtain ⟨p', hp', heq⟩ := Option.map_eq_some_iff.mp hp
  cases heq
  rw [Nat.zero_add]
  exact ⟨p, hp', rfl, rfl, rfl, rfl⟩

theorem messageRows_refs {messages : List PlacedMessage} {signals : List PlacedSignal} :
    (s.messageRows messages signals).map (·.ref) = messages.map (·.ref) := by
  have hfirst : messages.zipIdx.map Prod.fst = messages := List.zipIdx_map_fst ..
  conv_rhs => rw [← hfirst]
  rw [messageRows, List.map_map, List.map_map]
  rfl

theorem messageRows_isOf {entries : List (Message.Ref × Message)}
    {messages : List PlacedMessage} (h : List.Forall₂ (PlacedMessage.IsOf s) entries messages)
    (signals : List PlacedSignal) :
    List.Forall₂ (MessageRow.IsOf s) entries (s.messageRows messages signals) := by
  rw [List.forall₂_iff_get] at h ⊢
  obtain ⟨hlen, h⟩ := h
  refine ⟨hlen.trans messageRows_length.symm, fun j hj hj' => ?_⟩
  obtain ⟨p, hp, href, hmessage, hbus, -⟩ := messageRows_getElem? (List.getElem?_eq_getElem hj')
  have hplaced := h j hj (hlen ▸ hj)
  rw [List.get_eq_getElem, List.get_eq_getElem] at hplaced ⊢
  rw [List.getElem?_eq_getElem (hlen ▸ hj), Option.some.injEq] at hp
  rw [hp] at hplaced
  obtain ⟨href', hmessage', r, hr, hi⟩ := hplaced
  exact ⟨href.trans href', hmessage.trans hmessage', r, hr, hbus ▸ hi⟩

/-! ## Rows of the signal table -/

theorem signalRows_isOf {messages : List Message.Ref} {entries : List (Signal.Ref × Signal)}
    {signals : List PlacedSignal}
    (h : List.Forall₂ (PlacedSignal.IsOf s messages) entries signals) (next : Nat) :
    List.Forall₂ (SignalRow.IsOf s messages) entries (s.signalRows next signals) := by
  induction h generalizing next with
  | nil => exact .nil
  | @cons entry p _ _ hp _ ih =>
    obtain ⟨href, hsignal, hmessage, hposition, hsize⟩ := hp
    refine .cons ⟨href, hsignal, hmessage, hposition, hsize, ?_⟩ (ih _)
    rw [hsignal]
    cases entry.2.states.isEmpty <;> rfl

theorem signalRows_messageIndex (next : Nat) (signals : List PlacedSignal) :
    (s.signalRows next signals).map (·.messageIndex) = signals.map (·.messageIndex) := by
  induction signals generalizing next with
  | nil => rfl
  | cons p rest ih => exact congrArg (p.messageIndex :: ·) (ih _)

theorem signalRows_numbered (next : Nat) (signals : List PlacedSignal) :
    (s.signalRows next signals).filterMap (fun row => row.states.map (·.index)) =
      List.range' next ((s.signalRows next signals).filter (·.states.isSome)).length := by
  induction signals generalizing next with
  | nil => rfl
  | cons p rest ih =>
    unfold signalRows
    cases hempty : p.signal.states.isEmpty with
    | true => simpa [hempty] using ih next
    | false => simpa [hempty, List.range'_succ] using ih (next + 1)

/-! ## Signals by message -/

theorem mem_signalsOf_iff {signals : List PlacedSignal} {j k : Nat} :
    k ∈ signalsOf signals j ↔ (signals.map (·.messageIndex))[k]? = some j := by
  unfold signalsOf
  rw [List.mem_filterMap, List.getElem?_map, Option.map_eq_some_iff]
  constructor
  · rintro ⟨⟨p, i⟩, hmem, heq⟩
    simp only [Option.ite_none_right_eq_some, Option.some.injEq] at heq
    obtain ⟨hindex, rfl⟩ := heq
    exact ⟨p, List.mk_mem_zipIdx_iff_getElem?.mp hmem, hindex⟩
  · rintro ⟨p, hp, hindex⟩
    exact ⟨(p, k), List.mk_mem_zipIdx_iff_getElem?.mpr hp, if_pos hindex⟩

theorem signalsOf_sorted (signals : List PlacedSignal) (j : Nat) :
    (signalsOf signals j).Pairwise (· < ·) := by
  unfold signalsOf
  rw [List.pairwise_filterMap, List.pairwise_iff_getElem]
  intro i i' hi hi' hlt k hk k' hk'
  simp only [List.getElem_zipIdx, Nat.zero_add, Option.ite_none_right_eq_some,
    Option.some.injEq] at hk hk'
  omega

/-- Where signals come in the order of their messages, the positions of the signals of the first
message, of the second, and so on, are all positions in order. -/
theorem flatMap_signalsOf {signals : List PlacedSignal} {n : Nat}
    (sorted : signals.Pairwise fun p q => p.messageIndex ≤ q.messageIndex)
    (bound : ∀ p ∈ signals, p.messageIndex < n) :
    (List.range n).flatMap (signalsOf signals) = List.range signals.length := by
  have hflat : ((List.range n).flatMap (signalsOf signals)).Pairwise (· < ·) := by
    refine List.pairwise_flatMap.mpr ⟨fun j _ => signalsOf_sorted signals j, ?_⟩
    refine List.pairwise_lt_range.imp fun {j j'} hlt k hk k' hk' => ?_
    rw [mem_signalsOf_iff] at hk hk'
    obtain ⟨hbound, rfl⟩ := List.getElem?_eq_some_iff.mp hk
    obtain ⟨hbound', rfl⟩ := List.getElem?_eq_some_iff.mp hk'
    by_contra hle
    have hne : k ≠ k' := by
      rintro rfl
      exact Nat.lt_irrefl _ hlt
    have hback := List.pairwise_iff_getElem.mp (List.pairwise_map.mpr sorted) k' k
      hbound' hbound (by omega)
    exact absurd hlt (Nat.not_lt.mpr hback)
  refine hflat.eq_of_mem_iff List.pairwise_lt_range fun k => ?_
  rw [List.mem_flatMap, List.mem_range]
  constructor
  · rintro ⟨j, -, hk⟩
    obtain ⟨hk, -⟩ := List.getElem?_eq_some_iff.mp (mem_signalsOf_iff.mp hk)
    rwa [List.length_map] at hk
  · intro hk
    refine ⟨signals[k].messageIndex, List.mem_range.mpr (bound _ (List.getElem_mem hk)), ?_⟩
    rw [mem_signalsOf_iff, List.getElem?_map, List.getElem?_eq_getElem hk]
    rfl

theorem messageRows_flatMap {messages : List PlacedMessage} {signals : List PlacedSignal} :
    (s.messageRows messages signals).flatMap (·.signals) =
      (List.range messages.length).flatMap (signalsOf signals) := by
  have hsecond : messages.zipIdx.map Prod.snd = List.range messages.length := by
    rw [List.zipIdx_map_snd, List.range_eq_range']
  rw [← hsecond, messageRows, List.flatMap_map, List.flatMap_map]

/-! ## Making tables -/

/-- The positions of the messages that become rows. -/
def messageRefs (s : MessageSet) : List Message.Ref :=
  (s.allMessages.map Prod.fst).filter s.messageEnabled

theorem map_eq_of_forall₂ {α β γ : Type} {R : α → β → Prop} {f : α → γ} {g : β → γ} {l : List α}
    {l' : List β} (h : List.Forall₂ R l l') (hR : ∀ a b, R a b → g b = f a) :
    l'.map g = l.map f := by
  induction h with
  | nil => rfl
  | cons hab _ ih => rw [List.map_cons, List.map_cons, hR _ _ hab, ih]

theorem tables_eq_ok {index : Nat} {t : SetTables} (h : (s.tables index).outcome = .ok t) :
    ∃ messages signals requests,
      (s.allMessages.mapM s.placeMessage).outcome = .ok messages ∧
      (s.allSignals.mapM (s.placeSignal ((messages.filterMap id).map (·.ref)))).outcome =
        .ok signals ∧
      (s.activeRequests.mapM s.placeRequest).outcome = .ok requests ∧
      t = {
        index
        name := s.name
        buses := s.busRows
        messages := s.messageRows (messages.filterMap id) (signals.filterMap id)
        signals := s.signalRows 0 (signals.filterMap id)
        commands := s.activeCommands
        requests
        initializers := s.initializers
        loopers := s.loopers
        extraSources := s.extraSources } := by
  obtain ⟨-, -, h⟩ := Run.bind_outcome_eq_ok_iff.mp h
  obtain ⟨messages, hmessages, h⟩ := Run.bind_outcome_eq_ok_iff.mp h
  obtain ⟨signals, hsignals, h⟩ := Run.bind_outcome_eq_ok_iff.mp h
  obtain ⟨-, -, h⟩ := Run.bind_outcome_eq_ok_iff.mp h
  obtain ⟨requests, hrequests, h⟩ := Run.bind_outcome_eq_ok_iff.mp h
  exact ⟨messages, signals, requests, hmessages, hsignals, hrequests, (Except.ok.inj h).symm⟩

theorem index_of_tables {index : Nat} {t : SetTables} (h : (s.tables index).outcome = .ok t) :
    t.index = index := by
  obtain ⟨messages, signals, requests, -, -, -, rfl⟩ := tables_eq_ok h
  rfl

theorem busRows_agree {t : SetTables} (hbuses : t.buses = s.busRows) : t.BusesAgree s where
  mem_buses_iff r := by
    rw [hbuses]
    exact mem_busRows_refs_iff
  buses_nodup := hbuses ▸ busRows_nodup
  bus_row row hrow := by
    rw [hbuses] at hrow
    obtain ⟨⟨r, b⟩, hmem, rfl⟩ := List.mem_map.mp hrow
    exact (mem_validBuses_iff.mp hmem).1
  controllers_sorted := by
    rw [hbuses]
    exact List.pairwise_map.mpr validBuses_sorted

end MessageSet

/-! ## The tables of a sound set -/

namespace SoundSet

open MessageSet

variable (s : SoundSet)

theorem messageRefs_eq :
    s.messageRefs = (s.allMessages.filter fun entry => s.enabledMessage entry.2).map Prod.fst := by
  rw [messageRefs, List.filter_map]
  refine congrArg _ (List.filter_congr fun ⟨k, m⟩ hmem => ?_)
  show (s.message? k).any s.enabledMessage = _
  rw [(s.mem_allMessages_iff.mp hmem).1]
  rfl

theorem mem_messageRefs_iff {k : Message.Ref} :
    k ∈ s.messageRefs ↔ s.messageEnabled k = true := by
  rw [messageRefs, List.mem_filter, and_iff_right_iff_imp]
  intro henabled
  obtain ⟨m, hm, hm'⟩ := messageEnabled_iff.mp henabled
  obtain ⟨-, hbus⟩ := enabledMessage_iff.mp hm'
  exact List.mem_map.mpr ⟨(k, m), s.mem_allMessages_iff.mpr ⟨hm, hbus⟩, rfl⟩

theorem messageRefs_nodup : s.messageRefs.Nodup :=
  s.allMessages_nodup.sublist List.filter_sublist

/-- Of two enabled messages the one that comes first has the lower row. -/
theorem messageRefs_increasing :
    (s.allMessages.map Prod.fst).Pairwise fun k l => ∀ i j : Nat,
      s.messageRefs[i]? = some k → s.messageRefs[j]? = some l → i < j := by
  rw [List.pairwise_iff_forall_sublist]
  intro k l hsub i j hi hj
  have hk := (s.mem_messageRefs_iff).mp (List.mem_of_getElem? hi)
  have hl := (s.mem_messageRefs_iff).mp (List.mem_of_getElem? hj)
  have hsub' : [k, l].Sublist s.messageRefs := by
    have := hsub.filter s.messageEnabled
    rwa [List.filter_cons_of_pos hk, List.filter_cons_of_pos hl] at this
  exact List.pairwise_iff_forall_sublist.mp (positions_increasing (s.messageRefs_nodup)) hsub' i j
    hi hj

theorem placedSignals_sorted {signals : List PlacedSignal}
    (hplaced : List.Forall₂ (PlacedSignal.IsOf s s.messageRefs)
      (s.allSignals.filter fun entry => s.enabledSignal entry.2) signals) :
    signals.Pairwise fun p q => p.messageIndex ≤ q.messageIndex := by
  have hentries := (s.allSignals_pairwise (s.messageRefs_increasing)).filter
    fun entry => s.enabledSignal entry.2
  refine (pairwise_of_forall₂ hplaced.flip hentries).imp ?_
  rintro p q ⟨e, e', ⟨-, -, hp, -⟩, ⟨-, -, hq, -⟩, hsame | hlt⟩
  · rw [← hsame] at hq
    obtain ⟨hi, -⟩ := List.getElem?_eq_some_iff.mp hp
    exact Nat.le_of_eq
      ((List.getElem?_inj hi (s.messageRefs_nodup)).mp (hp.trans hq.symm))
  · exact Nat.le_of_lt (hlt _ _ hp hq)

/-- The candidates that become rows are the enabled messages and the enabled signals. -/
theorem placed {messages : List (Option PlacedMessage)}
    {signals : List (Option PlacedSignal)}
    (hmessages : (s.allMessages.mapM s.placeMessage).outcome = .ok messages)
    (hsignals : (s.allSignals.mapM
      (s.placeSignal ((messages.filterMap id).map (·.ref)))).outcome = .ok signals) :
    List.Forall₂ (PlacedMessage.IsOf s)
        (s.allMessages.filter fun entry => s.enabledMessage entry.2) (messages.filterMap id) ∧
      (messages.filterMap id).map (·.ref) = s.messageRefs ∧
      List.Forall₂ (PlacedSignal.IsOf s s.messageRefs)
        (s.allSignals.filter fun entry => s.enabledSignal entry.2) (signals.filterMap id) := by
  have hplaced := mapM_placeMessage_eq_ok hmessages
  have hrefs : (messages.filterMap id).map (·.ref) = s.messageRefs := by
    rw [s.messageRefs_eq]
    exact map_eq_of_forall₂ hplaced fun _ _ hp => hp.1
  rw [hrefs] at hsignals
  exact ⟨hplaced, hrefs, mapM_placeSignal_eq_ok (fun k => (s.mem_messageRefs_iff).mpr) hsignals⟩

theorem messageRows_agree {t : SetTables} (hbuses : t.buses = s.busRows)
    (hrows : List.Forall₂ (MessageRow.IsOf s)
      (s.allMessages.filter fun entry => s.enabledMessage entry.2) t.messages) :
    t.MessagesAgree s := by
  have hrefs : t.messages.map (·.ref) = s.messageRefs := by
    rw [s.messageRefs_eq]
    exact map_eq_of_forall₂ hrows fun _ _ hrow => hrow.ref_eq
  refine ⟨fun k => ?_, ?_, fun row hrow => ?_, ?_, fun row hrow => ?_⟩
  · rw [hrefs]
    exact s.mem_messageRefs_iff
  · rw [hrefs]
    exact s.messageRefs_nodup
  · obtain ⟨⟨k, m⟩, hmem, hrow⟩ := exists_left_of_forall₂ hrows hrow
    rw [hrow.ref_eq, hrow.message_eq]
    exact (s.mem_allMessages_iff.mp (List.mem_filter.mp hmem).1).1
  · have hentries := (s.allMessages_pairwise busIndex?_increasing).filter
      fun entry => s.enabledMessage entry.2
    refine (pairwise_of_forall₂ hrows.flip hentries).imp ?_
    rintro a b ⟨⟨k, m⟩, ⟨l, n⟩, ha, hb, r, r', hbus, hbus', horder⟩
    obtain ⟨q, hq, ha'⟩ := ha.bus
    obtain ⟨q', hq', hb'⟩ := hb.bus
    cases hbus.symm.trans hq
    cases hbus'.symm.trans hq'
    rcases horder with hlt | ⟨rfl, hlt⟩
    · exact .inl (hlt _ _ ha' hb')
    · refine .inr ⟨Option.some.inj (ha'.symm.trans hb'), ?_⟩
      rw [ha.message_eq, hb.message_eq]
      exact hlt
  · obtain ⟨entry, -, hrow⟩ := exists_left_of_forall₂ hrows hrow
    obtain ⟨r, hbus, hi⟩ := hrow.bus
    rw [busIndex?_eq_some_iff, List.getElem?_map] at hi
    obtain ⟨bus, hbus', rfl⟩ := Option.map_eq_some_iff.mp hi
    rw [hbuses, hrow.message_eq]
    exact ⟨bus, hbus', hbus⟩

theorem signalRows_agree {t : SetTables} {messages : List PlacedMessage}
    {signals : List PlacedSignal} (hmessages : messages.map (·.ref) = s.messageRefs)
    (hsignals : List.Forall₂ (PlacedSignal.IsOf s s.messageRefs)
      (s.allSignals.filter fun entry => s.enabledSignal entry.2) signals)
    (hmessageRows : t.messages = s.messageRows messages signals)
    (hsignalRows : t.signals = s.signalRows 0 signals) : t.SignalsAgree s := by
  have hrows := signalRows_isOf hsignals 0
  rw [← hsignalRows] at hrows
  have hrefs : t.signals.map (·.ref) =
      (s.allSignals.filter fun entry => s.enabledSignal entry.2).map Prod.fst :=
    map_eq_of_forall₂ hrows fun _ _ hrow => hrow.ref_eq
  have hmessageRefs : t.messages.map (·.ref) = s.messageRefs := by
    rw [hmessageRows, messageRows_refs, hmessages]
  have hindices : t.signals.map (·.messageIndex) = signals.map (·.messageIndex) := by
    rw [hsignalRows, signalRows_messageIndex]
  refine ⟨fun r => ?_, ?_, fun row hrow => ?_, fun row hrow => ?_, fun row hrow => ?_,
    fun j k message signal hmessage hsignal => ?_, ?_, ?_, fun row hrow => ?_⟩
  · rw [hrefs, signalEnabled_iff, List.mem_map]
    constructor
    · rintro ⟨⟨r, x⟩, hmem, rfl⟩
      obtain ⟨hmem, henabled⟩ := List.mem_filter.mp hmem
      exact ⟨x, (s.mem_allSignals_iff.mp hmem).1, henabled⟩
    · rintro ⟨x, hx, henabled⟩
      obtain ⟨-, howner⟩ := Bool.and_eq_true_iff.mp henabled
      obtain ⟨m, hm, hm'⟩ := messageEnabled_iff.mp howner
      obtain ⟨-, hbus⟩ := enabledMessage_iff.mp hm'
      have hmem := s.mem_allSignals_iff.mpr ⟨hx, m, s.mem_allMessages_iff.mpr ⟨hm, hbus⟩⟩
      exact ⟨(r, x), List.mem_filter.mpr ⟨hmem, henabled⟩, rfl⟩
  · rw [hrefs]
    exact s.allSignals_nodup.sublist (List.filter_sublist.map _)
  · obtain ⟨⟨r, x⟩, hmem, hrow⟩ := exists_left_of_forall₂ hrows hrow
    rw [hrow.ref_eq, hrow.signal_eq]
    exact (s.mem_allSignals_iff.mp (List.mem_filter.mp hmem).1).1
  · obtain ⟨entry, -, hrow⟩ := exists_left_of_forall₂ hrows hrow
    rw [hrow.signal_eq]
    exact ⟨hrow.position, hrow.size⟩
  · obtain ⟨entry, -, hrow⟩ := exists_left_of_forall₂ hrows hrow
    have hmessage := hrow.message
    rw [← hmessageRefs, List.getElem?_map] at hmessage
    rw [hrow.signal_eq]
    exact Option.map_eq_some_iff.mp hmessage
  · rw [hmessageRows] at hmessage
    obtain ⟨-, -, -, -, -, hlisted⟩ := messageRows_getElem? hmessage
    rw [hlisted, mem_signalsOf_iff, ← hindices, List.getElem?_map, hsignal, Option.map_some,
      Option.some.injEq]
  · have hbound : ∀ p ∈ signals, p.messageIndex < messages.length := by
      intro p hp
      obtain ⟨entry, -, -, -, hmessage, -⟩ := exists_left_of_forall₂ hsignals hp
      obtain ⟨hlt, -⟩ := List.getElem?_eq_some_iff.mp hmessage
      rwa [← hmessages, List.length_map] at hlt
    have hlength : t.signals.length = signals.length := by
      rw [← List.length_map (f := (·.messageIndex)), hindices, List.length_map]
    rw [hmessageRows, messageRows_flatMap, hlength]
    exact flatMap_signalsOf (s.placedSignals_sorted hsignals) hbound
  · rw [SetTables.stateRows, hsignalRows, signalRows_numbered, List.range_eq_range']
  · obtain ⟨entry, -, hrow⟩ := exists_left_of_forall₂ hrows hrow
    have hstates := hrow.states
    rw [hrow.signal_eq]
    cases hempty : entry.2.states.isEmpty with
    | true =>
      rw [hempty, if_pos rfl, Option.map_eq_none_iff] at hstates
      rw [hstates]
      exact ⟨iff_of_true rfl (List.isEmpty_iff.mp hempty), fun _ hblock => nomatch hblock⟩
    | false =>
      rw [hempty, if_neg Bool.false_ne_true] at hstates
      obtain ⟨block, hblock, htake⟩ := Option.map_eq_some_iff.mp hstates
      rw [hblock]
      refine ⟨iff_of_false (Option.some_ne_none _) fun hnil => ?_, fun block' heq => ?_⟩
      · rw [hnil] at hempty
        cases hempty
      · cases heq
        rw [htake, List.length_take, Nat.min_comm]
        exact ⟨List.take_prefix _ _, rfl⟩

/-- The tables of a sound set agree with it. -/
theorem tables_agree {index : Nat} {t : SetTables}
    (hrun : (s.tables index).outcome = .ok t) : t.index = index ∧ t.Agrees s := by
  obtain ⟨messages, signals, requests, hmessages, hsignals, -, rfl⟩ := tables_eq_ok hrun
  obtain ⟨hplaced, hrefs, hplaced'⟩ := s.placed hmessages hsignals
  exact ⟨rfl, {
    toBusesAgree := busRows_agree rfl
    toMessagesAgree := s.messageRows_agree rfl (messageRows_isOf hplaced _)
    toSignalsAgree := s.signalRows_agree hrefs hplaced' rfl rfl
    name_eq := rfl }⟩

end SoundSet

/-! ## Emitted states -/

/-- The states that a row emits. -/
def SignalRow.emitted (row : SignalRow) : List SignalState :=
  (row.states.map StateBlock.states).getD []

/-- A row emits the first states of its signal, as many as may be. -/
theorem SetTables.Agrees.emitted_eq {t : SetTables} {s : MessageSet} (h : t.Agrees s)
    {row : SignalRow} (hrow : row ∈ t.signals) :
    row.emitted = row.signal.states.take maxSignalStates := by
  obtain ⟨hnone, hblock⟩ := h.states_prefix row hrow
  rw [SignalRow.emitted]
  cases hstates : row.states with
  | none =>
    rw [hnone.mp hstates]
    rfl
  | some block =>
    obtain ⟨hinit, hlength⟩ := hblock block hstates
    show block.states = _
    rw [List.prefix_iff_eq_take.mp hinit, hlength, Nat.min_comm, ← List.take_take,
      List.take_length]

end CanTables
