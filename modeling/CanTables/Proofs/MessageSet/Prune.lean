import CanTables.Proofs.MessageSet.Rows
import CanTables.Proofs.Order.Ranks

/-!
# CanTables.Proofs.MessageSet.Prune — a message set without what is disabled

`MessageSet.prune` deletes the messages and signals that are not enabled, the disabled commands and
the disabled diagnostic requests, and renumbers the references to what is left.  Buses stay, valid
or not.

`SoundSet.pruned`: references of a sound set still agree after that.  The lists in table order lose
what was deleted and nothing else (`allMessages_prune`, `SoundSet.allSignals_prune`).
-/

namespace CanTables

open Positions Sorting

namespace MessageSet

/-! ## Pruning -/

/-- The position of a message among those that are enabled. -/
def keptMessage (s : MessageSet) (k : Message.Ref) : Message.Ref :=
  ⟨rank s.enabledMessage s.messages k.index⟩

/-- The position of a signal among those that are enabled. -/
def keptSignal (s : MessageSet) (r : Signal.Ref) : Signal.Ref :=
  ⟨rank s.enabledSignal s.signals r.index⟩

/-- The bus, listing its enabled messages only. -/
def pruneBus (s : MessageSet) (b : Bus) : Bus :=
  { b with messages := (b.messages.filter s.messageEnabled).map s.keptMessage }

/-- The message, listing its enabled signals only. -/
def pruneMessage (s : MessageSet) (m : Message) : Message :=
  { m with signals := (m.signals.filter s.signalEnabled).map s.keptSignal }

/-- The signal, at its message's new position. -/
def pruneSignal (s : MessageSet) (x : Signal) : Signal :=
  { x with message := s.keptMessage x.message }

/-- The set without its disabled messages, signals, commands and requests. -/
def prune (s : MessageSet) : MessageSet :=
  { s with
    buses := s.buses.map s.pruneBus
    messages := (s.messages.filter s.enabledMessage).map s.pruneMessage
    signals := (s.signals.filter s.enabledSignal).map s.pruneSignal
    commands := s.commands.filter Command.enabled
    requests := s.requests.filter Request.enabled }

variable {s : MessageSet}

/-! ## Looking things up -/

theorem bus?_prune (r : Bus.Ref) : s.prune.bus? r = (s.bus? r).map s.pruneBus := List.getElem?_map ..

theorem message?_prune {k : Message.Ref} {m : Message} (hk : s.message? k = some m)
    (hm : s.enabledMessage m = true) :
    s.prune.message? (s.keptMessage k) = some (s.pruneMessage m) := by
  rw [message?, prune, List.getElem?_map]
  exact congrArg (Option.map s.pruneMessage) (getElem?_filter_rank hk hm)

theorem signal?_prune {r : Signal.Ref} {x : Signal} (hr : s.signal? r = some x)
    (hx : s.enabledSignal x = true) :
    s.prune.signal? (s.keptSignal r) = some (s.pruneSignal x) := by
  rw [signal?, prune, List.getElem?_map]
  exact congrArg (Option.map s.pruneSignal) (getElem?_filter_rank hr hx)

/-- A message that is left was enabled. -/
theorem exists_of_message?_prune {k' : Message.Ref} {m' : Message}
    (h : s.prune.message? k' = some m') :
    ∃ k m, s.message? k = some m ∧ s.enabledMessage m = true ∧ s.keptMessage k = k' ∧
      s.pruneMessage m = m' := by
  rw [message?, prune, List.getElem?_map] at h
  obtain ⟨m, hm, hm'⟩ := Option.map_eq_some_iff.mp h
  obtain ⟨i, hi, henabled, hrank⟩ := exists_rank_of_getElem?_filter hm
  exact ⟨⟨i⟩, m, hi, henabled, congrArg Message.Ref.mk hrank.symm, hm'⟩

theorem keptMessage_inj {k l : Message.Ref} (hk : s.messageEnabled k = true)
    (hl : s.messageEnabled l = true) (h : s.keptMessage k = s.keptMessage l) : k = l := by
  obtain ⟨m, hm, hm'⟩ := messageEnabled_iff.mp hk
  obtain ⟨n, hn, hn'⟩ := messageEnabled_iff.mp hl
  exact congrArg Message.Ref.mk (rank_inj hm hm' hn hn' (congrArg Message.Ref.index h))

/-! ## What stays enabled -/

theorem busValid_prune (r : Bus.Ref) : s.prune.busValid r = s.busValid r := by
  rw [busValid, bus?_prune, Option.any_map]
  rfl

theorem enabledMessage_prune (m : Message) :
    s.prune.enabledMessage (s.pruneMessage m) = s.enabledMessage m := by
  have hvalid : s.prune.busValid = s.busValid := funext busValid_prune
  rw [enabledMessage, hvalid]
  rfl

theorem messageEnabled_of_enabledSignal {x : Signal} (h : s.enabledSignal x = true) :
    s.messageEnabled x.message = true := (Bool.and_eq_true_iff.mp h).2

/-- Nothing that is left is disabled. -/
theorem enabledSignal_prune {x : Signal} (h : s.enabledSignal x = true) :
    s.prune.enabledSignal (s.pruneSignal x) = true := by
  obtain ⟨hx, howner⟩ := Bool.and_eq_true_iff.mp h
  obtain ⟨m, hm, hm'⟩ := messageEnabled_iff.mp howner
  refine Bool.and_eq_true_iff.mpr ⟨hx, messageEnabled_iff.mpr ⟨_, message?_prune hm hm', ?_⟩⟩
  rw [enabledMessage_prune]
  exact hm'

/-! ## Lists in table order -/

theorem validBuses_prune : s.prune.validBuses = s.validBuses.map fun (r, b) => (r, s.pruneBus b) := by
  have hrefs : s.prune.busRefs = s.busRefs.map fun (r, b) => (r, s.pruneBus b) := by
    rw [busRefs, busRefs, prune, List.zipIdx_map, List.map_map, List.map_map]
    rfl
  rw [validBuses, hrefs, List.filter_map, sortBy_map]
  rfl

/-- Of a list of references those to kept elements are left, and they lead to what these have
become. -/
theorem filterMap_kept {ρ α β : Type} {find? : ρ → Option α} {find'? : ρ → Option β} {p : α → Bool}
    {kept : ρ → ρ} {g : α → β}
    (h : ∀ r a, find? r = some a → p a = true → find'? (kept r) = some (g a)) (refs : List ρ) :
    ((refs.filter fun r => (find? r).any p).map kept).filterMap
        (fun r => (find'? r).map fun b => (r, b)) =
      ((refs.filterMap fun r => (find? r).map fun a => (r, a)).filter fun entry => p entry.2).map
        fun (r, a) => (kept r, g a) := by
  induction refs with
  | nil => rfl
  | cons r rest ih =>
    cases hr : find? r with
    | none => simpa [hr] using ih
    | some a =>
      cases ha : p a with
      | true => simpa [hr, ha, h r a hr ha] using ih
      | false => simpa [hr, ha] using ih

theorem allMessages_prune :
    s.prune.allMessages = s.activeMessages.map fun (k, m) => (s.keptMessage k, s.pruneMessage m) := by
  show s.prune.validBuses.flatMap (fun entry => s.prune.messagesOf entry.2) =
    ((s.validBuses.flatMap fun entry => s.messagesOf entry.2).filter
      fun entry => s.enabledMessage entry.2).map _
  rw [validBuses_prune, List.flatMap_map, List.filter_flatMap, List.map_flatMap]
  refine List.flatMap_congr fun entry _ => ?_
  exact filterMap_kept (fun k m => message?_prune) entry.2.messages

end MessageSet

namespace SoundSet

open MessageSet

variable (s : SoundSet)

/-- A message that is not enabled has no enabled signals. -/
theorem enabledSignal_eq_false {k : Message.Ref} {m : Message}
    (hk : s.message? k = some m) (hm : s.enabledMessage m = false) {r : Signal.Ref} {x : Signal}
    (hr : r ∈ m.signals) (hx : s.signal? r = some x) : s.enabledSignal x = false := by
  obtain ⟨y, hy, rfl⟩ := s.signal_message k m hk r hr
  obtain rfl := Option.some.inj (hx.symm.trans hy)
  have howner : s.messageEnabled x.message = false := by rw [messageEnabled, hk, Option.any_some, hm]
  rw [enabledSignal, howner, Bool.and_false]

theorem allSignals_prune :
    s.prune.allSignals = s.activeSignals.map fun (r, x) => (s.keptSignal r, s.pruneSignal x) := by
  show (s.prune.allMessages.flatMap fun entry => entry.2.signals.filterMap fun r =>
      (s.prune.signal? r).map fun x => (r, x)) =
    ((s.allMessages.flatMap fun entry => entry.2.signals.filterMap fun r =>
      (s.signal? r).map fun x => (r, x)).filter fun entry => s.enabledSignal entry.2).map _
  rw [allMessages_prune, List.flatMap_map, List.filter_flatMap, List.map_flatMap, activeMessages,
    List.flatMap_congr fun entry _ => filterMap_kept (fun r x => signal?_prune) entry.2.signals]
  refine flatMap_filter_of_eq_nil fun entry hentry hdisabled => ?_
  obtain ⟨hk, -⟩ := s.mem_allMessages_iff.mp hentry
  rw [List.map_eq_nil_iff, List.filter_eq_nil_iff]
  intro found hfound
  obtain ⟨r, hr, hsome⟩ := List.mem_filterMap.mp hfound
  obtain ⟨x, hx, rfl⟩ := Option.map_eq_some_iff.mp hsome
  simp [s.enabledSignal_eq_false hk hdisabled hr hx]

/-! ## References after pruning -/

/-- The enabled messages among those that a bus or a set lists have what is left of their
signals. -/
theorem flatMap_signals_prune : s.prune.messages.flatMap Message.signals =
    ((s.messages.flatMap Message.signals).filter s.signalEnabled).map s.keptSignal := by
  have hlisted : (s.messages.filter s.enabledMessage).flatMap
      (fun m => (m.signals.filter s.signalEnabled).map s.keptSignal) =
      s.messages.flatMap fun m => (m.signals.filter s.signalEnabled).map s.keptSignal := by
    refine flatMap_filter_of_eq_nil fun m hm hdisabled => ?_
    obtain ⟨k, hk⟩ := exists_message?_of_mem hm
    rw [List.map_eq_nil_iff, List.filter_eq_nil_iff]
    intro r hr henabled
    obtain ⟨x, hx, hx'⟩ := signalEnabled_iff.mp henabled
    rw [s.enabledSignal_eq_false hk hdisabled hr hx] at hx'
    exact Bool.false_ne_true hx'
  rw [List.filter_flatMap, List.map_flatMap, ← hlisted]
  exact List.flatMap_map ..

/-- The sound set without its disabled messages, signals, commands and requests. -/
def pruned : SoundSet where
  toMessageSet := s.prune
  buses_sorted := List.pairwise_map.mpr s.buses_sorted
  messages_sorted := List.pairwise_map.mpr (s.messages_sorted.filter _)
  bus_eq_some_iff m' hm' r := by
    obtain ⟨m, hm, rfl⟩ := List.mem_map.mp hm'
    rw [show (s.pruneMessage m).bus = m.bus from rfl,
      s.bus_eq_some_iff m (List.mem_filter.mp hm).1 r, bus?_prune]
    simp only [Option.map_eq_some_iff, exists_exists_and_eq_and]
    rfl
  mem_bus_messages_iff r b' hb' k' := by
    rw [bus?_prune] at hb'
    obtain ⟨b, hb, rfl⟩ := Option.map_eq_some_iff.mp hb'
    rw [show (s.pruneBus b).messages = (b.messages.filter s.messageEnabled).map s.keptMessage from
      rfl, List.mem_map]
    constructor
    · rintro ⟨k, hk, rfl⟩
      obtain ⟨hk, henabled⟩ := List.mem_filter.mp hk
      obtain ⟨m, hm, hm'⟩ := messageEnabled_iff.mp henabled
      obtain ⟨n, hn, hbus⟩ := (s.mem_bus_messages_iff r b hb k).mp hk
      obtain rfl := Option.some.inj (hm.symm.trans hn)
      exact ⟨_, message?_prune hm hm', hbus⟩
    · rintro ⟨m', hm', hbus⟩
      obtain ⟨k, m, hm, henabled, rfl, rfl⟩ := exists_of_message?_prune hm'
      have hk := (s.mem_bus_messages_iff r b hb k).mpr ⟨m, hm, hbus⟩
      exact ⟨k, List.mem_filter.mpr ⟨hk, messageEnabled_iff.mpr ⟨m, hm, henabled⟩⟩, rfl⟩
  bus_messages_sorted b' hb' := by
    obtain ⟨b, hb, rfl⟩ := List.mem_map.mp hb'
    refine List.pairwise_map.mpr (((s.bus_messages_sorted b hb).filter _).imp_of_mem ?_)
    rintro k l hk hl ⟨m, n, hm, hn, hlt⟩
    obtain ⟨m', hm', henabled⟩ := messageEnabled_iff.mp (List.mem_filter.mp hk).2
    obtain ⟨n', hn', henabled'⟩ := messageEnabled_iff.mp (List.mem_filter.mp hl).2
    obtain rfl := Option.some.inj (hm.symm.trans hm')
    obtain rfl := Option.some.inj (hn.symm.trans hn')
    exact ⟨_, _, message?_prune hm henabled, message?_prune hn henabled', hlt⟩
  signals_tile := by
    have hlength : s.prune.signals.length = (s.signals.filter s.enabledSignal).length :=
      List.length_map ..
    rw [s.flatMap_signals_prune, s.signals_tile, hlength, ← map_rank_filter_range,
      List.filter_map, List.map_map, List.map_map]
    rfl
  signal_message k' m' hk' r' hr' := by
    obtain ⟨k, m, hm, henabled, rfl, rfl⟩ := exists_of_message?_prune hk'
    obtain ⟨r, hr, rfl⟩ := List.mem_map.mp hr'
    obtain ⟨hr, hr'⟩ := List.mem_filter.mp hr
    obtain ⟨x, hx, hx'⟩ := signalEnabled_iff.mp hr'
    obtain ⟨y, hy, hown⟩ := s.signal_message k m hm r hr
    obtain rfl := Option.some.inj (hx.symm.trans hy)
    exact ⟨_, signal?_prune hx hx', congrArg s.keptMessage hown⟩
  message_signals_sorted m' hm' := by
    obtain ⟨m, hm, rfl⟩ := List.mem_map.mp hm'
    have hsorted := s.message_signals_sorted m (List.mem_filter.mp hm).1
    refine List.pairwise_map.mpr ((hsorted.filter _).imp_of_mem ?_)
    rintro q r hq hr ⟨x, y, hx, hy, hle⟩
    obtain ⟨x', hx', henabled⟩ := signalEnabled_iff.mp (List.mem_filter.mp hq).2
    obtain ⟨y', hy', henabled'⟩ := signalEnabled_iff.mp (List.mem_filter.mp hr).2
    obtain rfl := Option.some.inj (hx.symm.trans hx')
    obtain rfl := Option.some.inj (hy.symm.trans hy')
    exact ⟨_, _, signal?_prune hx henabled, signal?_prune hy henabled', hle⟩
  states_sorted x' hx' := by
    obtain ⟨x, hx, rfl⟩ := List.mem_map.mp hx'
    exact s.states_sorted x (List.mem_filter.mp hx).1

end SoundSet

end CanTables
