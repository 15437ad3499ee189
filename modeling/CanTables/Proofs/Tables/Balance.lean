import CanTables.Proofs.Tables.Compiled
import CanTables.Proofs.Tables.Pruned

/-!
# CanTables.Proofs.Tables.Balance — rows and what is left out add up

The tables of a set have a row for each enabled message, signal and command, and the tally counts
what is not enabled.  Nothing is counted twice and nothing falls between the two: a message on a valid
bus either has a row or is skipped, and so on (`SetTables.Balances`).  States are counted by their
signals: those that have a row emit as many as may be, and the others of these signals are dropped.

What one set balances, all sets together balance (`Tables.balances_of_ofSets`).  A message on no valid
bus is on neither side.
-/

namespace CanTables

open Positions Sorting

/-! ## What is counted -/

/-- The messages that are on a valid bus. -/
def MessageSet.messagesOnValidBuses (s : MessageSet) : List Message :=
  s.messages.filter fun m => m.bus.any s.busValid

/-- The signals that are enabled and belong to an enabled message. -/
def MessageSet.enabledSignals (s : MessageSet) : List Signal := s.signals.filter s.enabledSignal

/-- The rows of a set and what its tables leave out add up to what the set has. -/
structure SetTables.Balances (t : SetTables) (left : Tally) (s : MessageSet) : Prop where
  messages : t.messages.length + left.skippedMessages = s.messagesOnValidBuses.length
  signals : t.signals.length + left.skippedSignals =
    (s.messagesOnValidBuses.flatMap Message.signals).length
  commands : t.commands.length + left.skippedCommands = s.commands.length
  states : (t.signals.flatMap SignalRow.emitted).length + left.droppedStates =
    (t.signals.flatMap fun row => row.signal.states).length
  /-- The rows of the signal table are about the enabled signals. -/
  rows : (t.signals.map (·.signal)).Perm s.enabledSignals
  emitted_le : ∀ row ∈ t.signals, row.emitted.length ≤ maxSignalStates

namespace Tables

/-- The rows of all sets. -/
def allSignalRows (t : Tables) : List SignalRow := t.sets.flatMap (·.signals)

/-- The rows of all sets and what all tables leave out add up to what the sets have. -/
structure Balances (t : Tables) (sets : List MessageSet) : Prop where
  messages : (t.sets.flatMap (·.messages)).length + t.tally.skippedMessages =
    (sets.flatMap MessageSet.messagesOnValidBuses).length
  signals : t.allSignalRows.length + t.tally.skippedSignals =
    ((sets.flatMap MessageSet.messagesOnValidBuses).flatMap Message.signals).length
  commands : (t.sets.flatMap (·.commands)).length + t.tally.skippedCommands =
    (sets.flatMap (·.commands)).length
  states : (t.allSignalRows.flatMap SignalRow.emitted).length + t.tally.droppedStates =
    (t.allSignalRows.flatMap fun row => row.signal.states).length
  /-- The rows of the signal tables are about the enabled signals. -/
  rows : (t.allSignalRows.map (·.signal)).Perm (sets.flatMap MessageSet.enabledSignals)
  emitted_le : ∀ row ∈ t.allSignalRows, row.emitted.length ≤ maxSignalStates

end Tables

/-! ## Kept and left out -/

/-- What passes a test and what does not add up. -/
theorem length_filter_add_countP {α : Type} (p : α → Bool) (l : List α) :
    (l.filter p).length + l.countP (fun a => !p a) = l.length := by
  have hsplit : l.length = l.countP p + l.countP fun a => decide ¬p a = true :=
    List.length_eq_countP_add_countP p
  rw [hsplit, ← List.countP_eq_length_filter]
  simp only [Bool.not_eq_true, Bool.decide_eq_false]

namespace MessageSet

/-- Emitted states and dropped ones add up over the rows of a table. -/
theorem sum_emitted {rows : List SignalRow}
    (h : ∀ row ∈ rows, row.emitted = row.signal.states.take maxSignalStates) :
    (rows.flatMap SignalRow.emitted).length +
        rows.foldr (fun row dropped => droppedStates row.signal + dropped) 0 =
      (rows.flatMap fun row => row.signal.states).length := by
  induction rows with
  | nil => rfl
  | cons row rest ih =>
    obtain ⟨hrow, hrest⟩ := List.forall_mem_cons.mp h
    have ih := ih hrest
    have hsplit : row.emitted.length + droppedStates row.signal = row.signal.states.length := by
      rw [hrow, List.length_take, droppedStates]
      omega
    simp only [List.flatMap_cons, List.foldr_cons, List.length_append]
    omega

end MessageSet

/-! ## One set -/

namespace SoundSet

open MessageSet

variable (s : SoundSet)

/-- The candidates for message rows are the messages on valid buses. -/
theorem allMessages_perm :
    (s.allMessages.map Prod.snd).Perm s.messagesOnValidBuses := by
  refine perm_filter_of_mem_iff Message.Ref.index ⟨?_, fun i => ⟨⟨i⟩, rfl⟩⟩
    s.allMessages_nodup fun k m => ?_
  · rintro ⟨i⟩ ⟨j⟩ rfl
    rfl
  · rw [s.mem_allMessages_iff, Option.any_eq_true]
    rfl

/-- The candidates for signal rows that are enabled are the enabled signals. -/
theorem enabledSignals_perm :
    ((s.allSignals.filter fun entry => s.enabledSignal entry.2).map Prod.snd).Perm
      s.enabledSignals := by
  refine perm_filter_of_mem_iff Signal.Ref.index ⟨?_, fun i => ⟨⟨i⟩, rfl⟩⟩
    (s.allSignals_nodup.sublist (List.filter_sublist.map _)) fun r x => ?_
  · rintro ⟨i⟩ ⟨j⟩ rfl
    rfl
  · rw [List.mem_filter, s.mem_allSignals_iff]
    constructor
    · rintro ⟨⟨hx, -⟩, henabled⟩
      exact ⟨hx, henabled⟩
    · rintro ⟨hx, henabled⟩
      -- The message of an enabled signal is enabled, so it is on a valid bus.
      obtain ⟨-, howner⟩ := Bool.and_eq_true_iff.mp henabled
      obtain ⟨m, hm, hm'⟩ := messageEnabled_iff.mp howner
      obtain ⟨-, hbus⟩ := enabledMessage_iff.mp hm'
      exact ⟨⟨hx, m, s.mem_allMessages_iff.mpr ⟨hm, hbus⟩⟩, henabled⟩

/-- There are as many candidates for signal rows as signals of messages on valid buses. -/
theorem allSignals_length :
    s.allSignals.length = (s.messagesOnValidBuses.flatMap Message.signals).length := by
  rw [← List.length_map (f := Prod.fst), s.allSignals_refs,
    ← (s.allMessages_perm.flatMap_right Message.signals).length_eq, List.flatMap_map]

/-- The tables of a sound set balance with what they leave out. -/
theorem tables_balance {index : Nat} {t : SetTables}
    (hrun : (s.tables index).outcome = .ok t) : t.Balances (s.tally t) s := by
  have hemitted : ∀ row ∈ t.signals, row.emitted = row.signal.states.take maxSignalStates :=
    fun _ hrow => (s.tables_agree hrun).2.emitted_eq hrow
  obtain ⟨messages, signals, requests, hmessages, hsignals, -, rfl⟩ := tables_eq_ok hrun
  obtain ⟨hplaced, -, hplaced'⟩ := s.placed hmessages hsignals
  have hrows := signalRows_isOf hplaced' 0
  refine ⟨?_, ?_, ?_, sum_emitted hemitted, ?_, fun row hrow => ?_⟩
  · show (s.messageRows _ _).length + s.allMessages.countP _ = _
    rw [messageRows_length, ← hplaced.length_eq, length_filter_add_countP,
      ← s.allMessages_perm.length_eq, List.length_map]
  · show (s.signalRows 0 _).length + s.allSignals.countP _ = _
    rw [← hrows.length_eq, length_filter_add_countP, s.allSignals_length]
  · show (s.allCommands.filter Command.enabled).length + s.commands.countP _ = _
    rw [allCommands, ((sortBy_perm (byKey Command.name) s.commands).filter Command.enabled).length_eq,
      length_filter_add_countP]
  · have hsignal := map_eq_of_forall₂ hrows fun _ _ hrow => hrow.signal_eq
    show ((s.signalRows 0 _).map (·.signal)).Perm _
    rw [hsignal]
    exact s.enabledSignals_perm
  · rw [hemitted row hrow, List.length_take]
    exact Nat.min_le_left _ _

end SoundSet

/-! ## All sets -/

namespace Tables

/-- What is planned has the tables of the sets and what these leave out. -/
theorem planFrom_tallied {index : Nat} {sets : List MessageSet}
    {planned : List (SetTables × Tally)} (h : (planFrom index sets).outcome = .ok planned) :
    List.Forall₂ (fun p s => ∃ i, (s.tables i).outcome = .ok p.1 ∧ p.2 = s.tally p.1)
      planned sets := by
  induction sets generalizing index planned with
  | nil =>
    cases h
    exact .nil
  | cons s rest ih =>
    obtain ⟨t, ht, h⟩ := Run.bind_outcome_eq_ok_iff.mp h
    obtain ⟨others, hothers, h⟩ := Run.bind_outcome_eq_ok_iff.mp h
    cases h
    exact .cons ⟨index, ht, rfl⟩ (ih hothers)

section Sums

variable {planned : List (SetTables × Tally)} {α β γ : Type} {l l' : List β}

/-- Where rows and what is left out add up for each part, they add up for all parts together. -/
theorem length_add_count (rows : SetTables → List α) (count : Tally → Nat) (all : β → List γ)
    (zero : count .zero = 0) (add : ∀ a b, count (a + b) = count a + count b) (hperm : l.Perm l')
    (h : List.Forall₂ (fun p b => (rows p.1).length + count p.2 = (all b).length) planned l) :
    ((planned.map Prod.fst).flatMap rows).length +
      count ((planned.map Prod.snd).foldr (· + ·) .zero) = (l'.flatMap all).length := by
  rw [← (hperm.flatMap_right all).length_eq]
  clear hperm
  induction h with
  | nil => exact (Nat.zero_add _).trans zero
  | @cons p b parts rest hp _ ih =>
    simp only [List.map_cons, List.flatMap_cons, List.foldr_cons, List.length_append, add]
    omega

end Sums

/-- The tables of assembled sets account for everything that is in them. -/
theorem balances_of_ofSets {sets : List MessageSet} {t : Tables}
    (assembled : ∀ s ∈ sets, ∃ (c : Catalog) (settings : Settings) (name : String),
      (c.assemble settings name).outcome = .ok s)
    (h : (ofSets sets).outcome = .ok t) : t.Balances sets := by
  obtain ⟨planned, hplanned, h⟩ := Run.bind_outcome_eq_ok_iff.mp h
  obtain rfl := Except.ok.inj h
  have hbalance : List.Forall₂ (fun p s => p.1.Balances p.2 s) planned (ordered sets) := by
    refine forall₂_of_mem (planFrom_tallied hplanned) fun p s _ hs ⟨i, ht, hleft⟩ => ?_
    obtain ⟨c, settings, name, hassemble⟩ := assembled s (mem_sortBy.mp hs)
    lift s to SoundSet using Catalog.sound_of_assemble hassemble
    exact hleft ▸ s.tables_balance ht
  -- The tables are in the order of the names, but sums do not depend on an order.
  have hperm : (ordered sets).Perm sets := sortBy_perm _ _
  refine ⟨?_, ?_, ?_, ?_, ?_, ?_⟩
  · exact length_add_count SetTables.messages Tally.skippedMessages _ rfl (fun _ _ => rfl) hperm
      (hbalance.imp fun _ _ hp => hp.messages)
  · rw [List.flatMap_assoc]
    exact length_add_count SetTables.signals Tally.skippedSignals _ rfl (fun _ _ => rfl) hperm
      (hbalance.imp fun _ _ hp => hp.signals)
  · exact length_add_count SetTables.commands Tally.skippedCommands _ rfl (fun _ _ => rfl) hperm
      (hbalance.imp fun _ _ hp => hp.commands)
  · -- States are counted by the rows, so the same tables stand on both sides.
    have hsum := length_add_count (fun t => t.signals.flatMap SignalRow.emitted) Tally.droppedStates
      (fun p : SetTables × Tally => p.1.signals.flatMap fun row => row.signal.states) rfl
      (fun _ _ => rfl) (.refl planned) (List.forall₂_same.mpr fun p hp => ?_)
    · rw [allSignalRows, List.flatMap_assoc, List.flatMap_assoc, hsum, List.flatMap_map]
    · obtain ⟨s, -, hp⟩ := exists_right_of_forall₂ hbalance hp
      exact hp.states
  · have hrows := perm_flatMap_of_forall₂ (hbalance.imp fun _ _ hp => hp.rows)
    rw [allSignalRows, List.flatMap_map, List.map_flatMap]
    exact hrows.trans (hperm.flatMap_right _)
  · intro row hrow
    obtain ⟨set, hset, hrow⟩ := List.mem_flatMap.mp hrow
    obtain ⟨p, hp, rfl⟩ := List.mem_map.mp hset
    obtain ⟨s, -, hp⟩ := exists_right_of_forall₂ hbalance hp
    exact hp.emitted_le row hrow

theorem balances_of_ofSets_partlyDisabled : ∃ s t,
    (Catalog.partlyDisabled.assemble .usual "set.json").outcome = .ok s ∧
      (ofSets [s, s]).outcome = .ok t ∧
      (t.allSignalRows.length = 2 ∧ t.tally = ⟨2, 4, 2, 2⟩) ∧ t.Balances [s, s] := by
  have hany : (Catalog.partlyDisabled.assemble .usual "set.json" >>= fun s =>
      ofSets [s, s]).outcome.toOption.any (fun t =>
        t.allSignalRows.length = 2 ∧ t.tally = ⟨2, 4, 2, 2⟩) = true := by
    decide +kernel
  obtain ⟨t, h, hcounts⟩ := Except.exists_of_any_toOption hany
  obtain ⟨s, hs, ht⟩ := Run.bind_outcome_eq_ok_iff.mp h
  refine ⟨s, t, hs, ht, of_decide_eq_true hcounts, balances_of_ofSets (fun s' hs' => ?_) ht⟩
  have heq : s' = s := by simpa using hs'
  exact ⟨Catalog.partlyDisabled, .usual, "set.json", heq ▸ hs⟩

end Tables

end CanTables
