import CanTables.Proofs.Emit.Forget
import CanTables.Proofs.MessageSet.Prune
import CanTables.Proofs.Tables.Compiled
import CanTables.Proofs.Tables.Place

/-!
# CanTables.Proofs.Tables.Pruned — what is disabled has no influence

The loops that fill the tables walk past disabled messages and signals, and report them.  Apart from
that they leave no trace: the tables of a pruned set are those of the set, references aside
(`SoundSet.tables_prune`), so both give the same source or the same fault
(`Catalog.generate_prune`).
-/

namespace CanTables

open Positions Sorting

namespace MessageSet

variable {s : MessageSet}

/-! ## What becomes rows -/

/-- The row that a message becomes, if it is enabled. -/
def placedMessage? (s : MessageSet) (entry : Message.Ref × Message) : Option PlacedMessage :=
  if s.enabledMessage entry.2 then
    (entry.2.bus.bind s.busIndex?).map fun busIndex => ⟨entry.1, entry.2, busIndex⟩
  else none

/-- The messages that become rows. -/
def placedMessages (s : MessageSet) : List PlacedMessage := s.allMessages.filterMap s.placedMessage?

theorem placeMessage_outcome (entry : Message.Ref × Message) :
    (s.placeMessage entry).outcome = .ok (s.placedMessage? entry) := by
  obtain ⟨k, m⟩ := entry
  unfold placeMessage placedMessage?
  cases henabled : s.enabledMessage m with
  | false =>
    simp only [henabled, Bool.not_false, if_true, Bool.false_eq_true, if_false]
    rfl
  | true =>
    simp only [henabled, Bool.not_true, Bool.false_eq_true, if_false, if_true]
    cases m.bus.bind s.busIndex? <;> rfl

/-- The row that a signal becomes, if it is enabled and its message has one of the rows given. -/
def placedSignal? (s : MessageSet) (messages : List Message.Ref) (entry : Signal.Ref × Signal) :
    Except Fault (Option PlacedSignal) :=
  if s.enabledSignal entry.2 then
    match lastIndex? (· == entry.2.message) messages with
    | none => .ok none
    | some messageIndex => (s.placement entry.2).map fun place =>
      some ⟨entry.1, entry.2, messageIndex, place.1, place.2⟩
  else .ok none

/-- The signals that become rows. -/
def placedSignals (s : MessageSet) (messages : List Message.Ref) :
    Except Fault (List PlacedSignal) :=
  (s.allSignals.mapM (s.placedSignal? messages)).map (List.filterMap id)

theorem placeSignal_outcome (messages : List Message.Ref) (entry : Signal.Ref × Signal) :
    (s.placeSignal messages entry).outcome = s.placedSignal? messages entry := by
  obtain ⟨r, x⟩ := entry
  unfold placeSignal placedSignal?
  cases henabled : s.enabledSignal x with
  | false =>
    simp only [henabled, Bool.not_false, if_true, Bool.false_eq_true, if_false]
    rfl
  | true =>
    simp only [henabled, Bool.not_true, Bool.false_eq_true, if_false, if_true]
    cases lastIndex? (· == x.message) messages with
    | none => rfl
    | some i =>
      simp only [Run.outcome_bind, Run.outcome_lift]
      cases s.placement x with
      | error fault => rfl
      | ok place =>
        simp only [Except.ok_bind]
        split <;> rfl

/-- The tables of a set, computed from the rows that its parts become. -/
theorem tables_outcome (index : Nat) : (s.tables index).outcome =
    s.placedSignals (s.placedMessages.map (·.ref)) >>= fun signals =>
      (s.activeRequests.mapM s.placeRequest).outcome >>= fun requests => .ok {
        index
        name := s.name
        buses := s.busRows
        messages := s.messageRows s.placedMessages signals
        signals := s.signalRows 0 signals
        commands := s.activeCommands
        requests
        initializers := s.initializers
        loopers := s.loopers
        extraSources := s.extraSources } := by
  have hmessages : (s.allMessages.mapM s.placeMessage).outcome =
      .ok (s.allMessages.map s.placedMessage?) := by
    rw [Run.outcome_mapM, Except.mapM_eq_ok_iff, List.forall₂_map_right_iff, List.forall₂_same]
    exact fun entry _ => placeMessage_outcome entry
  have hplaced : (s.allMessages.map s.placedMessage?).filterMap id = s.placedMessages := by
    rw [List.filterMap_map]
    rfl
  have hsignals : ∀ refs, (s.allSignals.mapM (s.placeSignal refs)).outcome =
      s.allSignals.mapM (s.placedSignal? refs) := by
    intro refs
    rw [Run.outcome_mapM]
    exact congrArg (List.mapM · s.allSignals) (funext (placeSignal_outcome refs))
  simp only [tables, Run.outcome_bind, Run.outcome_report, Run.outcome_write, Except.ok_bind,
    hmessages, hplaced, hsignals, placedSignals, Except.map_bind]
  rfl

/-! ## Rows of a pruned set -/

/-- The row of a message after pruning. -/
def prunePlacedMessage (s : MessageSet) (p : PlacedMessage) : PlacedMessage :=
  ⟨s.keptMessage p.ref, s.pruneMessage p.message, p.busIndex⟩

/-- The row of a signal after pruning. -/
def prunePlacedSignal (s : MessageSet) (p : PlacedSignal) : PlacedSignal :=
  { p with ref := s.keptSignal p.ref, signal := s.pruneSignal p.signal }

theorem busRows_prune : s.prune.busRows = s.busRows.map fun row => ⟨row.ref, s.pruneBus row.bus⟩ := by
  rw [busRows, busRows, validBuses_prune, List.map_map, List.map_map]
  rfl

theorem busIndex?_prune (r : Bus.Ref) : s.prune.busIndex? r = s.busIndex? r := by
  rw [busIndex?, busRows_prune, List.findIdx?_map]
  rfl

theorem placedMessages_prune :
    s.prune.placedMessages = s.placedMessages.map s.prunePlacedMessage := by
  have hindex : s.prune.busIndex? = s.busIndex? := funext busIndex?_prune
  rw [placedMessages, placedMessages, allMessages_prune, activeMessages, List.filterMap_map,
    List.filterMap_filter, List.map_filterMap]
  refine List.filterMap_congr fun entry _ => ?_
  obtain ⟨k, m⟩ := entry
  simp only [Function.comp_apply, placedMessage?, enabledMessage_prune, hindex]
  split
  · rw [Option.map_map]
    rfl
  · rfl

/-- The rows of messages are those of enabled ones. -/
theorem messageEnabled_of_mem_placedMessages {k : Message.Ref}
    (h : k ∈ s.placedMessages.map (·.ref)) : s.messageEnabled k = true := by
  obtain ⟨p, hp, rfl⟩ := List.mem_map.mp h
  obtain ⟨⟨k, m⟩, hentry, hplaced⟩ := List.mem_filterMap.mp hp
  obtain ⟨⟨r, b⟩, -, hlisted⟩ := List.mem_flatMap.mp hentry
  obtain ⟨-, hm⟩ := mem_messagesOf_iff.mp (show (k, m) ∈ s.messagesOf b from hlisted)
  unfold placedMessage? at hplaced
  split at hplaced
  · next henabled =>
    obtain ⟨i, -, rfl⟩ := Option.map_eq_some_iff.mp hplaced
    exact messageEnabled_iff.mpr ⟨m, hm, henabled⟩
  · cases hplaced

/-- Positions are found as before. -/
theorem lastIndex?_map {α β : Type} {f : α → β} {test : α → Bool} {test' : β → Bool} {l : List α}
    (h : ∀ a ∈ l, test' (f a) = test a) : lastIndex? test' (l.map f) = lastIndex? test l := by
  have hfilter : l.zipIdx.filter (fun entry => test' (f entry.1)) =
      l.zipIdx.filter fun entry => test entry.1 := by
    refine List.filter_congr fun entry hentry => h _ ?_
    exact List.mem_of_getElem? (List.mk_mem_zipIdx_iff_getElem?.mp hentry)
  rw [lastIndex?, List.zipIdx_map, List.filter_map, List.getLast?_map, Option.map_map, lastIndex?,
    ← hfilter]
  rfl

section Signals

variable {x : Signal} (hx : s.enabledSignal x = true)
include hx

theorem message?_pruneSignal : s.prune.message? (s.pruneSignal x).message =
    (s.message? x.message).map s.pruneMessage := by
  obtain ⟨m, hm, hm'⟩ := messageEnabled_iff.mp (messageEnabled_of_enabledSignal hx)
  rw [hm]
  exact message?_prune hm hm'

theorem ownerId_prune : s.prune.ownerId (s.pruneSignal x) = s.ownerId x := by
  rw [ownerId, message?_pruneSignal hx, Option.map_map]
  rfl

theorem placement_prune : s.prune.placement (s.pruneSignal x) = s.placement x := by
  have hinverted : s.prune.signalInverted (s.pruneSignal x) = s.signalInverted x := by
    rw [signalInverted, message?_pruneSignal hx, Option.map_map]
    rfl
  simp only [placement, signalPosition, hinverted, ownerId_prune hx]
  rfl

theorem placedSignal?_prune {messages : List Message.Ref}
    (hmessages : ∀ k ∈ messages, s.messageEnabled k = true) (r : Signal.Ref) :
    s.prune.placedSignal? (messages.map s.keptMessage) (s.keptSignal r, s.pruneSignal x) =
      (s.placedSignal? messages (r, x)).map (Option.map s.prunePlacedSignal) := by
  have hindex : lastIndex? (· == (s.pruneSignal x).message) (messages.map s.keptMessage) =
      lastIndex? (· == x.message) messages := by
    refine lastIndex?_map fun k hk => ?_
    rw [Bool.eq_iff_iff, beq_iff_eq, beq_iff_eq]
    have howner := messageEnabled_of_enabledSignal hx
    exact ⟨keptMessage_inj (hmessages k hk) howner, congrArg s.keptMessage⟩
  simp only [placedSignal?, enabledSignal_prune hx, hx, if_true, hindex, placement_prune hx]
  cases lastIndex? (· == x.message) messages with
  | none => rfl
  | some i =>
    simp only [Except.map_map]
    rfl

end Signals

/-- Disabled signals become nothing, so that it does not matter whether they are looked at. -/
theorem placedSignals_eq (messages : List Message.Ref) : s.placedSignals messages =
    (s.activeSignals.mapM (s.placedSignal? messages)).map (List.filterMap id) := by
  rw [placedSignals, activeSignals, eq_comm]
  refine Except.mapM_filter fun entry _ hdisabled => ?_
  exact if_neg (by simpa using hdisabled)

/-- The rows of signals are those of enabled ones. -/
theorem enabledSignal_of_mem_placedSignals {messages : List Message.Ref}
    {signals : List PlacedSignal} (h : s.placedSignals messages = .ok signals) {p : PlacedSignal}
    (hp : p ∈ signals) : s.enabledSignal p.signal = true := by
  rw [placedSignals_eq, Except.map_eq_ok_iff] at h
  obtain ⟨placed, hplaced, rfl⟩ := h
  obtain ⟨p?, hp?, hsome⟩ := List.mem_filterMap.mp hp
  obtain rfl : p? = some p := hsome
  obtain ⟨⟨r, x⟩, hentry, hplace⟩ := exists_left_of_forall₂ (Except.mapM_eq_ok_iff.mp hplaced) hp?
  have henabled : s.enabledSignal x = true := (List.mem_filter.mp hentry).2
  simp only [placedSignal?, henabled, if_true] at hplace
  split at hplace
  · cases hplace
  · obtain ⟨place, -, heq⟩ := Except.map_eq_ok_iff.mp hplace
    cases heq
    exact henabled

theorem messageRows_prune (messages : List PlacedMessage) (signals : List PlacedSignal) :
    (s.prune.messageRows (messages.map s.prunePlacedMessage)
        (signals.map s.prunePlacedSignal)).map MessageRow.forget =
      (s.messageRows messages signals).map MessageRow.forget := by
  have hfrequency : ∀ m, s.prune.messageMaxFrequency (s.pruneMessage m) =
      s.messageMaxFrequency m := by
    intro m
    have hbus : (m.bus.bind s.prune.bus?).map Bus.maxMessageFrequency =
        (m.bus.bind s.bus?).map Bus.maxMessageFrequency := by
      cases m.bus with
      | none => rfl
      | some r =>
        rw [Option.bind_some, Option.bind_some, bus?_prune, Option.map_map]
        rfl
    exact congrArg (fun above => m.maxFrequency.getD (above.getD (.zero .single false))) hbus
  have hsignals : ∀ index, signalsOf (signals.map s.prunePlacedSignal) index =
      signalsOf signals index := by
    intro index
    rw [signalsOf, signalsOf, List.zipIdx_map, List.filterMap_map]
    rfl
  rw [messageRows, messageRows, List.zipIdx_map, List.map_map, List.map_map, List.map_map]
  refine List.map_congr_left fun entry _ => ?_
  obtain ⟨p, index⟩ := entry
  show MessageRow.forget ⟨_, s.pruneMessage p.message, p.busIndex,
    s.prune.messageMaxFrequency (s.pruneMessage p.message), signalsOf _ index⟩ = _
  rw [hfrequency, hsignals]
  rfl

theorem signalRows_prune {signals : List PlacedSignal}
    (enabled : ∀ p ∈ signals, s.enabledSignal p.signal = true) (next : Nat) :
    (s.prune.signalRows next (signals.map s.prunePlacedSignal)).map SignalRow.forget =
      (s.signalRows next signals).map SignalRow.forget := by
  induction signals generalizing next with
  | nil => rfl
  | cons p rest ih =>
    obtain ⟨hp, hrest⟩ := List.forall_mem_cons.mp enabled
    have hfrequency : s.prune.signalMaxFrequency (s.pruneSignal p.signal) =
        s.signalMaxFrequency p.signal := by
      rw [signalMaxFrequency, message?_pruneSignal hp, Option.bind_map]
      rfl
    have hchanged : s.prune.signalForceSendChanged (s.pruneSignal p.signal) =
        s.signalForceSendChanged p.signal := by
      rw [signalForceSendChanged, message?_pruneSignal hp, Option.any_map]
      rfl
    simp only [List.map_cons, signalRows, prunePlacedSignal, hfrequency, hchanged]
    exact congrArg (_ :: ·) (ih hrest _)

/-- Commands and requests that are disabled come into no table. -/
theorem activeCommands_prune : s.prune.activeCommands = s.activeCommands := by
  show (sortBy (byKey Command.name) (s.commands.filter Command.enabled)).filter Command.enabled =
    (sortBy (byKey Command.name) s.commands).filter Command.enabled
  rw [sortBy_byKey_filter, List.filter_filter]
  simp only [Bool.and_self]

theorem activeRequests_prune : s.prune.activeRequests = s.activeRequests := by
  show sortBy _ ((s.requests.filter Request.enabled).filter Request.enabled) =
    sortBy _ (s.requests.filter Request.enabled)
  rw [List.filter_filter]
  simp only [Bool.and_self]

theorem placeRequest_prune : s.prune.placeRequest = s.placeRequest := by
  have hindex : s.prune.busIndex? = s.busIndex? := funext busIndex?_prune
  have hnamed : s.prune.busNamed? = s.busNamed? := by
    funext name
    rw [busNamed?, prune, List.findIdx?_map]
    rfl
  funext r
  rw [placeRequest, placeRequest, hindex, hnamed]
  rfl

end MessageSet

/-! ## The tables of a pruned set -/

namespace SoundSet

open MessageSet

variable (s : SoundSet)

theorem placedSignals_prune {messages : List Message.Ref}
    (hmessages : ∀ k ∈ messages, s.messageEnabled k = true) :
    s.prune.placedSignals (messages.map s.keptMessage) =
      (s.placedSignals messages).map (List.map s.prunePlacedSignal) := by
  have hrows := Except.mapM_map fun (entry : Signal.Ref × Signal)
      (hentry : entry ∈ s.activeSignals) =>
    placedSignal?_prune (List.mem_filter.mp hentry).2 hmessages entry.1
  rw [placedSignals, s.allSignals_prune, hrows, placedSignals_eq, Except.map_map, Except.map_map]
  refine congrArg (Except.map · _) (funext fun placed => ?_)
  rw [List.filterMap_map, List.map_filterMap]
  rfl

/-- The tables of a pruned set are those of the set, references aside. -/
theorem tables_prune (index : Nat) :
    (s.prune.tables index).outcome.map SetTables.forget =
      (s.tables index).outcome.map SetTables.forget := by
  have hrefs : (s.placedMessages.map s.prunePlacedMessage).map (·.ref) =
      (s.placedMessages.map (·.ref)).map s.keptMessage := by
    rw [List.map_map, List.map_map]
    rfl
  rw [tables_outcome, tables_outcome, placedMessages_prune, hrefs,
    s.placedSignals_prune fun _ => messageEnabled_of_mem_placedMessages, Except.map_bind,
    activeRequests_prune, placeRequest_prune, Except.bind_map, Except.bind_map]
  cases hsignals : s.placedSignals (s.placedMessages.map (·.ref)) with
  | error fault => rfl
  | ok signals =>
    have henabled := fun p hp => enabledSignal_of_mem_placedSignals hsignals (p := p) hp
    rw [Except.ok_bind, Except.ok_bind, Except.bind_map, Except.bind_map]
    refine congrArg (_ >>= ·) (funext fun requests => ?_)
    simp only [Except.map, SetTables.forget, messageRows_prune, signalRows_prune henabled,
      activeCommands_prune, busRows_prune, List.map_map]
    rfl

/-! ## What is left out of a pruned set -/

/-- Nothing is left out of a pruned set but states beyond those that are emitted. -/
theorem tally_prune {t t' : SetTables} (ht : t'.forget = t.forget) :
    s.prune.tally t' = ⟨0, 0, 0, (s.tally t).droppedStates⟩ := by
  have hmessages : s.prune.allMessages.countP (fun entry => !s.prune.enabledMessage entry.2) = 0 := by
    rw [allMessages_prune, List.countP_eq_zero]
    intro entry hentry
    obtain ⟨⟨k, m⟩, hkm, rfl⟩ := List.mem_map.mp hentry
    have henabled : s.enabledMessage m = true := (List.mem_filter.mp hkm).2
    simp [enabledMessage_prune, henabled]
  have hsignals : s.prune.allSignals.countP (fun entry => !s.prune.enabledSignal entry.2) = 0 := by
    rw [s.allSignals_prune, List.countP_eq_zero]
    intro entry hentry
    obtain ⟨⟨r, x⟩, hrx, rfl⟩ := List.mem_map.mp hentry
    simp [enabledSignal_prune (List.mem_filter.mp hrx).2]
  have hcommands : s.prune.commands.countP (fun c => !c.enabled) = 0 := by
    rw [prune, List.countP_eq_zero]
    intro c hc
    simp [(List.mem_filter.mp hc).2]
  have hdropped : ∀ t : SetTables, t.signals.foldr (fun row n => droppedStates row.signal + n) 0 =
      t.forget.signals.foldr (fun row n => droppedStates row.signal + n) 0 := by
    intro t
    rw [SetTables.forget, List.foldr_map]
    rfl
  show Tally.mk _ _ _ _ = _
  rw [Tally.mk.injEq]
  refine ⟨hmessages, hsignals, hcommands, ?_⟩
  rw [hdropped, ht, ← hdropped]
  rfl

end SoundSet

namespace Tally

/-- The states that were left out, and nothing else. -/
def onlyDropped (a : Tally) : Tally := ⟨0, 0, 0, a.droppedStates⟩

theorem onlyDropped_add (a b : Tally) : (a + b).onlyDropped = a.onlyDropped + b.onlyDropped := rfl

theorem onlyDropped_sum (l : List Tally) :
    (l.map onlyDropped).foldr (· + ·) zero = (l.foldr (· + ·) zero).onlyDropped := by
  induction l with
  | nil => rfl
  | cons a rest ih => rw [List.map_cons, List.foldr_cons, List.foldr_cons, ih, onlyDropped_add]

end Tally

/-! ## Sets that are compiled together -/

namespace Tables

theorem planFrom_prune (sets : List SoundSet) (index : Nat) :
    (planFrom index (sets.map fun s => s.prune)).outcome.map
        (List.map fun planned => (planned.1.forget, planned.2)) =
      (planFrom index (sets.map SoundSet.toMessageSet)).outcome.map
        (List.map fun planned => (planned.1.forget, planned.2.onlyDropped)) := by
  induction sets generalizing index with
  | nil => rfl
  | cons s rest ih =>
    simp only [List.map_cons, planFrom, Run.outcome_bind, Except.bind_map]
    refine Except.bind_congr_of_map (s.tables_prune index) fun t' t ht => ?_
    refine Except.bind_congr_of_map (ih (index + 1)) fun planned' planned hplanned => ?_
    simp only [Run.pure_outcome, Except.map, List.map_cons, hplanned, ht, s.tally_prune ht]
    rfl

/-- The tables of pruned sets are those of the sets, references aside. -/
theorem ofSets_prune (sets : List SoundSet) :
    (ofSets (sets.map fun s => s.prune)).outcome.map (fun t => (t.forget, t.tally)) =
      (ofSets (sets.map SoundSet.toMessageSet)).outcome.map fun t =>
        (t.forget, t.tally.onlyDropped) := by
  -- Pruning keeps the names, so it does not matter whether it is done before or after sorting.
  have hordered : ordered (sets.map fun s => s.prune) =
      (sortBy (byKey fun s => s.name) sets).map fun s => s.prune := sortBy_map _ _ _
  simp only [ofSets, hordered, ordered_soundSets, Run.outcome_bind, Except.bind_map]
  refine Except.bind_congr_of_map (planFrom_prune _ 0) fun planned' planned hplanned => ?_
  have hsets : (planned'.map Prod.fst).map SetTables.forget =
      (planned.map Prod.fst).map SetTables.forget := by
    simpa only [List.map_map, Function.comp_def] using congrArg (List.map Prod.fst) hplanned
  have htally : planned'.map Prod.snd = (planned.map Prod.snd).map Tally.onlyDropped := by
    simpa only [List.map_map, Function.comp_def] using congrArg (List.map Prod.snd) hplanned
  simp only [Run.pure_outcome, Except.map, forget, hsets, htally, Tally.onlyDropped_sum]

end Tables

namespace Catalog

theorem generate_outcome (c : Catalog) (settings : Settings) (sets : List MessageSet) :
    (c.generate settings sets).outcome = (Tables.ofSets sets).outcome >>= fun t =>
      t.forget.extraSources.mapM c.readText >>= fun extra =>
        .ok ⟨emit settings.target t.forget extra, t.tally⟩ := by
  simp only [generate, Run.outcome_bind, Run.outcome_lift, Run.outcome_note, Except.ok_bind,
    Tables.extraSources_forget, emit_forget]
  rfl

/-- Pruning assembled sets changes neither their source nor, where there is one, the fault; and of
what was left out only surplus states remain. -/
theorem generate_prune (c : Catalog) (settings : Settings) {sets : List MessageSet}
    (assembled : ∀ s ∈ sets, ∃ (c' : Catalog) (settings' : Settings) (name : String),
      (c'.assemble settings' name).outcome = .ok s) :
    (∀ s ∈ sets, s.prune.Sound) ∧
      (c.generate settings (sets.map MessageSet.prune)).outcome =
        (c.generate settings sets).outcome.map fun g => ⟨g.source, g.tally.onlyDropped⟩ := by
  obtain ⟨sets, rfl⟩ := exists_soundSets assembled
  refine ⟨fun s hs => ?_, ?_⟩
  · obtain ⟨s, -, rfl⟩ := List.mem_map.mp hs
    exact s.pruned.toSound
  rw [generate_outcome, generate_outcome, Except.bind_map, List.map_map]
  refine Except.bind_congr_of_map (Tables.ofSets_prune sets) fun t' t ht => ?_
  obtain ⟨hforget, htally⟩ := Prod.mk.inj ht
  simp only [hforget, htally, Except.bind_map]
  rfl

/-- A set with a disabled message, a disabled signal, a disabled command, and a signal with one
state too many. -/
def partlyDisabled : Catalog := ofFiles [
  ("set.json", objectText [
    ("buses", objectText [("hs", objectText [("controller", "1"), ("speed", "1")])]),
    ("messages", objectText [
      ("0x8", objectText [
        ("bus", "\"hs\""), ("enabled", "false"), ("signals", objectText [("lamp", "\x7b\x7d")])]),
      ("0x9", objectText [
        ("bus", "\"hs\""),
        ("signals", objectText [
          ("door", objectText [("enabled", "false")]),
          ("gear", objectText [("bit_position", "0"), ("bit_size", "4"),
            ("states", objectText [("on", "[0,1,2,3,4,5,6,7,8,9,10,11,12]")])])])])]),
    ("commands", "[" ++ objectText [("name", "\"go\""), ("enabled", "false")] ++ "]")])]

theorem generate_prune_partlyDisabled : ∃ s g,
    (partlyDisabled.assemble .usual "set.json").outcome = .ok s ∧
      (partlyDisabled.generate .usual [s]).outcome = .ok g ∧
      (s.messages.length = 2 ∧ s.signals.length = 3 ∧ g.tally = ⟨1, 2, 1, 1⟩) ∧
      s.prune.Sound ∧
      (partlyDisabled.generate .usual [s.prune]).outcome = .ok ⟨g.source, ⟨0, 0, 0, 1⟩⟩ := by
  have hany : (partlyDisabled.assemble .usual "set.json").outcome.toOption.any (fun s =>
      s.messages.length = 2 ∧ s.signals.length = 3 ∧
        (partlyDisabled.generate .usual [s]).outcome.toOption.any fun g =>
          g.tally = ⟨1, 2, 1, 1⟩) = true := by
    decide +kernel
  obtain ⟨s, hs, hcounts⟩ := Except.exists_of_any_toOption hany
  obtain ⟨hmessages, hsignals, hany⟩ := of_decide_eq_true hcounts
  obtain ⟨g, hg, htally⟩ := Except.exists_of_any_toOption hany
  have htally := of_decide_eq_true htally
  have assembled : ∀ s' ∈ [s], ∃ (c' : Catalog) (settings' : Settings) (name : String),
      (c'.assemble settings' name).outcome = .ok s' := by
    intro s' hs'
    obtain rfl := List.mem_singleton.mp hs'
    exact ⟨partlyDisabled, .usual, "set.json", hs⟩
  obtain ⟨hsound, hpruned⟩ := generate_prune partlyDisabled .usual assembled
  refine ⟨s, g, hs, hg, ⟨hmessages, hsignals, htally⟩, hsound s List.mem_cons_self, ?_⟩
  rw [hg] at hpruned
  rw [show [s.prune] = [s].map MessageSet.prune from rfl, hpruned, Except.map, htally]
  rfl

end Catalog

end CanTables
