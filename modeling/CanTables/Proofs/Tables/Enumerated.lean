import CanTables.Proofs.Assembly.Enumeration
import CanTables.Proofs.Tables.Reported

/-!
# CanTables.Proofs.Tables.Enumerated — an enumeration from the draft to the tables

A signal of a draft lists raw values under names.  Resolving the draft gives each value its name and
warns about every listing that comes too late; the tables keep the twelve smallest values, with the
names that were given before anything was cut (`SetDraft.enumerated_of_resolve`).
-/

namespace CanTables

open Declaration Sorting

/-! ## Emitted states -/

/-- Some states are the twelve with the smallest values, or all where there are no more. -/
structure AreSmallest (emitted states : List SignalState) : Prop where
  length_eq : emitted.length = min 12 states.length
  sublist : emitted.Sublist states
  lt : ∀ a ∈ emitted, ∀ b ∈ states, b ∉ emitted → a.value < b.value

theorem areSmallest_take {states : List SignalState}
    (sorted : states.Pairwise fun a b => a.value < b.value) :
    AreSmallest (states.take maxSignalStates) states := by
  refine ⟨List.length_take, List.take_sublist _ _, fun a ha b hb hout => ?_⟩
  rw [← List.take_append_drop maxSignalStates states] at sorted hb
  obtain ⟨-, -, hlt⟩ := List.pairwise_append.mp sorted
  exact hlt a ha b ((List.mem_append.mp hb).resolve_left hout)

/-! ## From the draft to the tables -/

/-- A signal of a set was resolved from an entry of a draft. -/
structure MessageSet.IsSignalOf (s : MessageSet) (draft : MessageDraft) (entry : String × SignalLayer)
    (r : Signal.Ref) (x : Signal) : Prop where
  signal : s.signal? r = some x
  resolved : x = resolveSignal x.message entry.1 entry.2
  /-- The message of the signal is that of the draft, and lists the signal. -/
  message : ∃ m, s.message? x.message = some m ∧ m.id = draft.id ∧ m.busName = draft.bus ∧
    r ∈ m.signals

namespace SetDraft

variable {d : SetDraft}

/-- Every signal of a draft is resolved. -/
theorem exists_isSignalOf {requests : List Request} {draft : MessageDraft}
    (hdraft : draft ∈ d.messages) {entry : String × SignalLayer} (hentry : entry ∈ draft.signals) :
    ∃ r x, (d.resolveWith requests).IsSignalOf draft entry r x := by
  obtain ⟨k, m, hm, hmessage, hlisted⟩ := exists_message?_resolveWith hdraft
  have hx : resolveSignal k entry.1 entry.2 ∈ draft.resolveSignals k :=
    MessageDraft.mem_resolveSignals_iff.mpr ⟨entry, hentry, rfl⟩
  obtain ⟨r, hr, hsignal⟩ := Positions.exists_left_of_forall₂ hlisted hx
  refine ⟨r, _, hsignal, rfl, m, hm, ?_, ?_, hr⟩
  · rw [hmessage]
    rfl
  · rw [hmessage]
    rfl

/-- Resolving a draft gives the signal of an enumeration its states, and warns once for every listing
of a value but one; where the signal is enabled, the tables have the smallest of its states. -/
theorem enumerated_of_resolve (hbuses : d.buses.Ordered) (hmessages : d.messages.Distinct)
    {s : MessageSet} (hs : d.resolve.outcome = .ok s) {draft : MessageDraft}
    (hdraft : draft ∈ d.messages) {entry : String × SignalLayer} (hentry : entry ∈ draft.signals)
    {raw : Keyed String (List Int)} (hraw : entry.2 .states = some raw) (ordered : raw.Ordered) :
    warnings d.resolve.journal =
        (d.orderedMessages.flatMap fun draft => draft.signals.flatMap (draft.duplicates d.name)) ∧
      (draft.duplicates d.name entry).length + (StateNames.listedValues raw).dedup.length =
        (StateNames.listedValues raw).length ∧
      ∃ r x, s.IsSignalOf draft entry r x ∧ StateNames.Enumerates raw x.states ∧
        ∀ index t, (s.tables index).outcome = .ok t → s.signalEnabled r = true →
          AreSmallest (t.emittedStates r) x.states := by
  obtain ⟨requests, -, rfl⟩ := resolve_eq_ok_iff.mp hs
  have hnames : stateNamesOf entry.2 = StateNames.ofListings raw := by
    rw [stateNamesOf, hraw]
    rfl
  refine ⟨d.warnings_resolve, ?_, ?_⟩
  · rw [MessageDraft.duplicates, List.length_map, hnames]
    exact StateNames.clashes_length raw
  · obtain ⟨r, x, hx⟩ : ∃ r x, (d.resolveWith requests).IsSignalOf draft entry r x :=
      exists_isSignalOf hdraft hentry
    have hstates : StateNames.Enumerates raw x.states := by
      rw [hx.resolved]
      show StateNames.Enumerates raw (stateNamesOf entry.2).states
      rw [hnames]
      exact StateNames.enumerates_states ⟨raw, ordered⟩
    refine ⟨r, x, hx, hstates, fun index t ht henabled => ?_⟩
    -- The states are cut only here, after every value has got its name.
    let sound : SoundDraft := ⟨d, hbuses, hmessages⟩
    have hagrees := ((sound.resolved requests).tables_agree ht).2
    rw [MessageSet.emittedStates_eq hagrees hx.signal ((hagrees.mem_signals_iff r).mpr henabled)]
    exact areSmallest_take hstates.sorted

/-- An enumeration of fifteen values.  Two of them are listed again under their own name, two under
another one, and one is negative. -/
def gearStates : Keyed String (List Int) := [
  ("drive", [1, 2, 2, 1]), ("park", [0, 2]), ("reverse", [-1, 1]),
  ("spare", [20, 19, 18, 17, 16, 15, 14, 13, 12, 11, 10])]

/-- A draft of one message, whose only signal has these states. -/
def gearbox : SetDraft where
  name := "gearbox"
  bitNumberingInverted := false
  buses := [("hs", fun
    | .controller => some (1 : UInt8)
    | _ => none)]
  messages := [{
    id := 0x10
    attributes := fun
      | .bus => some "hs"
      | _ => none
    signals := [("gear", fun
      | .bitPosition => some (0 : UInt32)
      | .bitSize => some (8 : UInt32)
      | .states => some gearStates
      | _ => none)] }]
  commands := []
  requests := []
  initializers := []
  loopers := []
  extraSources := []

theorem enumerated_of_resolve_gearbox : ∃ s t r x draft entry,
    gearbox.resolve.outcome = .ok s ∧ (s.tables 0).outcome = .ok t ∧
      (draft ∈ gearbox.messages ∧ entry ∈ draft.signals ∧
        (draft.duplicates gearbox.name entry).length = 4) ∧
      s.IsSignalOf draft entry r x ∧ StateNames.Enumerates gearStates x.states ∧
      x.states.length = 15 ∧ AreSmallest (t.emittedStates r) x.states := by
  have hany : (gearbox.resolve >>= fun s => s.tables 0).outcome.toOption.any (fun t =>
      t.signals.length = 1) = true := by
    decide +kernel
  obtain ⟨t, h, -⟩ := Except.exists_of_any_toOption hany
  obtain ⟨s, hs, ht⟩ := Run.bind_outcome_eq_ok_iff.mp h
  have henabled : gearbox.resolve.outcome.toOption.any (fun s =>
      s.signals.length = 1 ∧ s.signalEnabled ⟨0⟩) = true := by
    decide +kernel
  rw [hs] at henabled
  obtain ⟨hone, henabled⟩ := of_decide_eq_true henabled
  have hbuses : gearbox.buses.Ordered := List.pairwise_singleton _ _
  have hmessages : gearbox.messages.Distinct := List.pairwise_singleton _ _
  have hordered : gearStates.Ordered := by
    unfold Keyed.Ordered
    decide
  obtain ⟨-, -, r, x, hx, hstates, hemitted⟩ := enumerated_of_resolve hbuses hmessages hs
    List.mem_cons_self List.mem_cons_self rfl hordered
  have hr : r = ⟨0⟩ := by
    obtain ⟨hlt, -⟩ := MessageSet.signal?_eq_some_iff.mp hx.signal
    obtain ⟨index⟩ := r
    rw [hone] at hlt
    exact congrArg Signal.Ref.mk (Nat.lt_one_iff.mp hlt)
  refine ⟨s, t, r, x, _, _, hs, ht, ⟨List.mem_cons_self, List.mem_cons_self, ?_⟩, hx, hstates, ?_,
    hemitted 0 t ht (hr ▸ henabled)⟩
  · decide
  · rw [hx.resolved]
    show (StateNames.ofListings gearStates).states.length = 15
    decide

end SetDraft

end CanTables
