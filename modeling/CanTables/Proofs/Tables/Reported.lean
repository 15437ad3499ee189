import CanTables.Proofs.Assembly.Clashes
import CanTables.Proofs.Tables.AnyOrder
import CanTables.Proofs.Tables.Fit

/-!
# CanTables.Proofs.Tables.Reported — nothing is left out silently

Three passes leave something out: resolving a draft drops listings of states, the check only warns
about messages without a usable bus, and making the tables skips what is disabled and cuts long
lists of states.  Each of them reports what it leaves out, and what one pass does not look at another
one has reported: a message that is on no valid bus never reaches the tables, but the check has
named it.

`Catalog.reported_of_compile`: whenever sets are compiled, each message, each signal of a message on
a valid bus and each command has a row or is named in a warning, and so is each of these signals that
has more states than are emitted.

The signals of other messages are not looked at one by one: only their message is named
(`Catalog.not_forall_reports`).
-/

namespace CanTables

open Positions Sorting

/-! ## What is reported -/

/-- The states that are emitted for a signal. -/
def SetTables.emittedStates (t : SetTables) (r : Signal.Ref) : List SignalState :=
  (((t.signals.find? fun row => row.ref == r).bind (·.states)).map (·.states)).getD []

namespace MessageSet

/-- The signal belongs to a message on a valid bus. -/
def OnValidBus (s : MessageSet) (x : Signal) : Prop :=
  ∃ m, s.message? x.message = some m ∧ ∃ r, m.bus = some r ∧ s.busValid r = true

/-- What the tables of a set leave out is named in a warning about the set; states are accounted for
where a signal is `counted`. -/
structure Reported (s : MessageSet) (t : SetTables) (journal : List Entry)
    (counted : Signal → Prop) : Prop where
  messages : ∀ k m, s.message? k = some m →
    k ∈ t.messages.map (·.ref) ∨ Warns journal s.name (Fault.hex m.id)
  signals : ∀ r x, s.signal? r = some x → s.OnValidBus x →
    r ∈ t.signals.map (·.ref) ∨ Warns journal s.name x.genericName
  commands : ∀ c ∈ s.commands, c ∈ t.commands ∨ Warns journal s.name c.name
  states : ∀ r x, s.signal? r = some x → counted x →
    (t.emittedStates r).length < x.states.length → Warns journal s.name x.genericName

end MessageSet

/-- A compilation accounts for the set that a name stands for: the set has tables, and what they
leave out is named, as is every signal of which a listing of states is dropped. -/
structure Catalog.Accounts (c : Catalog) (settings : Settings) (tables : Tables)
    (journal : List Entry) (counted : MessageSet → Signal → Prop) (name : String) (s : MessageSet) :
    Prop where
  rows : ∃ t ∈ tables.sets, t.Agrees s ∧ s.Reported t journal (counted s)
  listings : ∃ d, c.HasDraft settings name d ∧ d.resolve.outcome = .ok s ∧ d.ClashesReported journal

/-! ## What the check writes -/

namespace MessageSet

variable {s : MessageSet}

/-- A message that is on no valid bus is found, and its line has its mark. -/
theorem exists_busFinding {m : Message} (h : ¬ ∃ r, m.bus = some r ∧ s.busValid r = true) :
    ∃ finding ∈ s.busFindings m, ∃ text,
      finding.entry s.name = (Origin.ofMessage s.name m.id).entry .warn text := by
  unfold busFindings
  cases hname : m.busName with
  | none => exact ⟨_, List.mem_singleton_self _, _, rfl⟩
  | some name =>
    cases hbus : m.bus with
    | none => exact ⟨_, List.mem_singleton_self _, _, rfl⟩
    | some r =>
      have hinvalid : s.busValid r = false := by
        rw [← Bool.not_eq_true]
        exact fun hvalid => h ⟨r, hbus, hvalid⟩
      simp only [hinvalid, Bool.false_eq_true, if_false]
      exact ⟨_, List.mem_singleton_self _, _, rfl⟩

/-- The messages of a fit set are looked at. -/
theorem findings_of_isFit (fit : s.isFit = true) : s.findings = s.messageFindings :=
  if_pos (acceptable_nameFindings.mpr (isFit_iff.mp fit).1)

theorem warns_of_not_onValidBus (fit : s.isFit = true) {m : Message} (hm : m ∈ s.messages)
    (h : ¬ ∃ r, m.bus = some r ∧ s.busValid r = true) :
    Warns s.check.journal s.name (Fault.hex m.id) := by
  obtain ⟨finding, hfinding, text, htext⟩ := exists_busFinding h
  have hmem : finding ∈ s.findings := by
    rw [findings_of_isFit fit]
    exact List.mem_append_left _ (List.mem_flatMap.mpr ⟨m, hm, hfinding⟩)
  have hline : (Origin.ofMessage s.name m.id).entry .warn text ∈ s.check.journal :=
    Run.mem_journal_bind_left (htext ▸ List.mem_map_of_mem hmem)
  exact Warns.of_mem hline (.inr ⟨_, _, rfl, rfl⟩)

/-! ## What is written about candidates -/

theorem warns_of_disabledMessage {k : Message.Ref} {m : Message} (h : s.enabledMessage m = false) :
    Warns (s.placeMessage (k, m)).journal s.name (Fault.hex m.id) := by
  unfold placeMessage
  simp only [h, Bool.not_false, if_true]
  refine Warns.of_report (.inl ?_) _
  simpa only [String.append_assoc, String.append_empty] using
    hasWord_between (by decide : Opens " (" = true) (by decide : Closes ")" = true)
      ("Skipping disabled message " ++ m.label) (Fault.hex m.id) ""

section Signals

variable {messages : List Message.Ref} {r : Signal.Ref} {x : Signal}

theorem warns_of_disabledSignal (h : s.enabledSignal x = false) :
    Warns (s.placeSignal messages (r, x)).journal s.name x.genericName := by
  unfold placeSignal
  simp only [h, Bool.not_false, if_true]
  refine Warns.of_report (.inl ?_) _
  simpa only [String.empty_append, String.append_assoc] using
    hasWord_between (by decide : Opens "Skipping disabled signal '" = true)
      (by decide : Closes "' (in " = true) "" x.genericName (Fault.hex (s.ownerId x) ++ ")")

/-- A signal that is placed without all of its states is named. -/
theorem warns_of_droppedStates (enabled : s.enabledSignal x = true) (hmessage : x.message ∈ messages)
    (hdropped : 0 < droppedStates x) {p? : Option PlacedSignal}
    (h : (s.placeSignal messages (r, x)).outcome = .ok p?) :
    Warns (s.placeSignal messages (r, x)).journal s.name x.genericName := by
  obtain ⟨i, hi⟩ : ∃ i, lastIndex? (· == x.message) messages = some i :=
    exists_lastIndex? hmessage (beq_self_eq_true x.message)
  unfold placeSignal at h ⊢
  simp only [enabled, Bool.not_true, Bool.false_eq_true, if_false, hdropped, if_true] at h ⊢
  rw [hi] at h ⊢
  obtain ⟨placed, hplaced, -⟩ := Run.bind_outcome_eq_ok_iff.mp h
  refine @Warns.of_mem _ (.ofSet s.name) ("Ignoring anything beyond " ++
    toString maxSignalStates ++ " states for " ++ x.genericName) _ ?_ (.inl ?_)
  · exact Run.mem_journal_bind_right hplaced (Run.mem_journal_bind_left List.mem_cons_self)
  · exact hasWord_last (by decide : Opens " states for " = true)
      ("Ignoring anything beyond " ++ toString maxSignalStates) x.genericName

end Signals

theorem warns_of_disabledCommand {c : Command} (h : c.enabled = false) :
    Warns [s.commandEntry c] s.name c.name := by
  unfold commandEntry
  simp only [h, Bool.false_eq_true, if_false]
  refine Warns.of_mem (List.mem_singleton_self _) (.inl ?_)
  simpa only [String.empty_append] using
    hasWord_last (by decide : Opens "Skipping disabled command " = true) "" c.name

/-! ## States that are emitted -/

/-- No state is emitted for a signal that has no row. -/
theorem emittedStates_eq_nil {t : SetTables} {r : Signal.Ref} (h : r ∉ t.signals.map (·.ref)) :
    t.emittedStates r = [] := by
  have hnone : (t.signals.find? fun row => row.ref == r) = none := by
    rw [List.find?_eq_none]
    exact fun row hrow heq => h (List.mem_map.mpr ⟨row, hrow, beq_iff_eq.mp heq⟩)
  rw [SetTables.emittedStates, hnone]
  rfl

/-- Of a signal with a row the first states are emitted, as many as may be. -/
theorem emittedStates_eq {t : SetTables} (h : t.Agrees s) {r : Signal.Ref} {x : Signal}
    (hx : s.signal? r = some x) (hr : r ∈ t.signals.map (·.ref)) :
    t.emittedStates r = x.states.take maxSignalStates := by
  obtain ⟨row, hrow⟩ : ∃ row, (t.signals.find? fun row => row.ref == r) = some row := by
    rw [← Option.isSome_iff_exists, List.find?_isSome]
    obtain ⟨row, hrow, href⟩ := List.mem_map.mp hr
    exact ⟨row, hrow, beq_iff_eq.mpr href⟩
  have hmem : row ∈ t.signals := List.mem_of_find?_eq_some hrow
  have href : row.ref = r := by simpa using List.find?_some hrow
  have hsignal : row.signal = x := by
    have hthere := h.signal_row row hmem
    rw [href, hx] at hthere
    exact (Option.some.inj hthere).symm
  have hemitted : t.emittedStates r = row.emitted := by
    rw [SetTables.emittedStates, hrow]
    rfl
  rw [hemitted, h.emitted_eq hmem, hsignal]

end MessageSet

/-! ## What is written about a set -/

namespace SoundSet

open MessageSet

variable (s : SoundSet)

/-- What is written about the candidates of a set is written when its tables are made. -/
theorem tables_journal {index : Nat} {t : SetTables}
    (hrun : (s.tables index).outcome = .ok t) :
    (∀ entry ∈ s.allMessages, (s.placeMessage entry).journal ⊆ (s.tables index).journal) ∧
      (∀ entry ∈ s.allSignals, (∃ p?, (s.placeSignal s.messageRefs entry).outcome = .ok p?) ∧
        (s.placeSignal s.messageRefs entry).journal ⊆ (s.tables index).journal) ∧
      ∀ c ∈ s.commands, s.commandEntry c ∈ (s.tables index).journal := by
  obtain ⟨messages, signals, requests, hmessages, hsignals, -, -⟩ := tables_eq_ok hrun
  obtain ⟨-, hrefs, -⟩ := s.placed hmessages hsignals
  refine ⟨fun entry hentry e he => ?_, fun entry hentry => ⟨?_, fun e he => ?_⟩, fun c hc => ?_⟩
  · exact Run.mem_journal_bind_right rfl
      (Run.mem_journal_bind_left (Run.mem_journal_mapM hmessages hentry he))
  · rw [hrefs, Run.outcome_mapM, Except.mapM_eq_ok_iff] at hsignals
    obtain ⟨p?, -, hp⟩ := exists_right_of_forall₂ hsignals hentry
    exact ⟨p?, hp⟩
  · rw [← hrefs] at he
    exact Run.mem_journal_bind_right rfl (Run.mem_journal_bind_right hmessages
      (Run.mem_journal_bind_left (Run.mem_journal_mapM hsignals hentry he)))
  · refine Run.mem_journal_bind_right rfl (Run.mem_journal_bind_right hmessages
      (Run.mem_journal_bind_right hsignals (Run.mem_journal_bind_left ?_)))
    exact List.mem_map_of_mem (mem_sortBy.mpr hc)

theorem mem_allSignals_of_onValidBus {r : Signal.Ref} {x : Signal}
    (hx : s.signal? r = some x) (hbus : s.OnValidBus x) : (r, x) ∈ s.allSignals := by
  obtain ⟨m, hm, hbus⟩ := hbus
  exact s.mem_allSignals_iff.mpr ⟨hx, m, s.mem_allMessages_iff.mpr ⟨hm, hbus⟩⟩

/-- What the check and the tables of a fit set write accounts for everything that the tables leave
out. -/
theorem reported (fit : s.isFit = true) {index : Nat} {t : SetTables}
    (hrun : (s.tables index).outcome = .ok t) {journal : List Entry}
    (hcheck : s.check.journal ⊆ journal) (htables : (s.tables index).journal ⊆ journal) :
    s.Reported t journal s.OnValidBus := by
  obtain ⟨-, hagrees⟩ := s.tables_agree hrun
  obtain ⟨hmessages, hsignals, hcommands⟩ := s.tables_journal hrun
  have signals : ∀ r x, s.signal? r = some x → s.OnValidBus x →
      r ∈ t.signals.map (·.ref) ∨ Warns journal s.name x.genericName := by
    intro r x hx hbus
    cases henabled : s.enabledSignal x with
    | true => exact .inl ((hagrees.mem_signals_iff r).mpr (signalEnabled_iff.mpr ⟨x, hx, henabled⟩))
    | false =>
      obtain ⟨-, hsub⟩ := hsignals _ (s.mem_allSignals_of_onValidBus hx hbus)
      exact .inr ((warns_of_disabledSignal henabled).mono (List.Subset.trans hsub htables))
  refine ⟨fun k m hm => ?_, signals, fun c hc => ?_, fun r x hx hbus hfewer => ?_⟩
  · by_cases hbus : ∃ r, m.bus = some r ∧ s.busValid r = true
    · cases henabled : s.enabledMessage m with
      | true =>
        exact .inl ((hagrees.mem_messages_iff k).mpr (messageEnabled_iff.mpr ⟨m, hm, henabled⟩))
      | false =>
        have hsub := hmessages _ (s.mem_allMessages_iff.mpr ⟨hm, hbus⟩)
        exact .inr ((warns_of_disabledMessage henabled).mono (List.Subset.trans hsub htables))
    · -- The tables never get to see this message, but the check does.
      exact .inr ((warns_of_not_onValidBus fit (mem_of_message? hm) hbus).mono hcheck)
  · cases henabled : c.enabled with
    | true =>
      obtain ⟨messages, placed, requests, -, -, -, rfl⟩ := tables_eq_ok hrun
      exact .inl (List.mem_filter.mpr ⟨mem_sortBy.mpr hc, henabled⟩)
    | false =>
      have hsub : [s.commandEntry c] ⊆ journal := by
        rw [List.cons_subset]
        exact ⟨htables (hcommands c hc), List.nil_subset _⟩
      exact .inr ((warns_of_disabledCommand henabled).mono hsub)
  · rcases signals r x hx hbus with hr | hwarns
    · -- A signal with a row has lost only states beyond those that may be emitted.
      rw [emittedStates_eq hagrees hx hr, List.length_take] at hfewer
      have hdropped : 0 < droppedStates x := by
        unfold droppedStates
        omega
      obtain ⟨x', hx', henabled⟩ := signalEnabled_iff.mp ((hagrees.mem_signals_iff r).mp hr)
      obtain rfl := Option.some.inj (hx.symm.trans hx')
      obtain ⟨⟨p?, hp⟩, hsub⟩ := hsignals _ (s.mem_allSignals_of_onValidBus hx hbus)
      have howner := (s.mem_messageRefs_iff).mpr (Bool.and_eq_true_iff.mp henabled).2
      exact (warns_of_droppedStates henabled howner hdropped hp).mono (List.Subset.trans hsub htables)
    · exact hwarns

end SoundSet

/-! ## What is written about several sets -/

namespace Tables

theorem planFrom_journal {index : Nat} {sets : List MessageSet} {planned : List (SetTables × Tally)}
    (h : (planFrom index sets).outcome = .ok planned) :
    List.Forall₂ (fun t s => (s.tables t.index).outcome = .ok t ∧
      (s.tables t.index).journal ⊆ (planFrom index sets).journal) (planned.map Prod.fst) sets := by
  induction sets generalizing index planned with
  | nil =>
    cases h
    exact .nil
  | cons s rest ih =>
    obtain ⟨t, ht, h⟩ := Run.bind_outcome_eq_ok_iff.mp h
    obtain ⟨others, hothers, h⟩ := Run.bind_outcome_eq_ok_iff.mp h
    cases h
    obtain rfl : t.index = index := MessageSet.index_of_tables ht
    refine .cons ⟨ht, fun e he => Run.mem_journal_bind_left he⟩ ?_
    refine (ih hothers).imp fun t' s' hs' => ⟨hs'.1, fun e he => ?_⟩
    exact Run.mem_journal_bind_right ht (Run.mem_journal_bind_left (hs'.2 he))

/-- Every set has tables, and what is written about them is written about all. -/
theorem exists_tables_of_ofSets {sets : List MessageSet} {tables : Tables}
    (h : (ofSets sets).outcome = .ok tables) {s : MessageSet} (hs : s ∈ sets) :
    ∃ t ∈ tables.sets, (s.tables t.index).outcome = .ok t ∧
      (s.tables t.index).journal ⊆ (ofSets sets).journal := by
  obtain ⟨planned, hplanned, h⟩ := Run.bind_outcome_eq_ok_iff.mp h
  obtain rfl := Except.ok.inj h
  obtain ⟨t, ht, hrun, hsub⟩ :=
    exists_left_of_forall₂ (planFrom_journal hplanned) (mem_sortBy.mpr hs)
  exact ⟨t, ht, hrun, fun e he => Run.mem_journal_bind_left (hsub he)⟩

end Tables

namespace Catalog

variable {c : Catalog} {settings : Settings}

theorem checkAll_journal {sets : List MessageSet} (h : (checkAll sets).outcome = .ok ())
    {s : MessageSet} (hs : s ∈ sets) : s.check.journal ⊆ (checkAll sets).journal := by
  induction sets with
  | nil => cases hs
  | cons first rest ih =>
    obtain ⟨hfirst, hrest⟩ := List.forall_mem_cons.mp (checkAll_eq_ok_iff.mp h)
    rcases List.mem_cons.mp hs with rfl | hs
    · exact fun e he => Run.mem_journal_bind_left he
    · intro e he
      refine Run.mem_journal_bind_right (congrArg Except.ok hfirst) ?_
      exact ih (checkAll_eq_ok_iff.mpr hrest) hs he

/-- Whenever sets are compiled, nothing is left out silently: every message has a row or is named by
its identifier in a warning of its set; every signal of a message on a valid bus has a row or is
named by its generic name, and is named as well if it has more states than are emitted; every command
has a row or is named; and every signal of which a listing of states is dropped is named. -/
theorem reported_of_compile {names : List String} {g : Generated}
    (h : (c.compile settings names).outcome = .ok g) :
    ∃ sets tables extra, c.Compiled settings names g sets tables extra ∧
      List.Forall₂ (c.Accounts settings tables (c.compile settings names).journal
        MessageSet.OnValidBus) names sets := by
  obtain ⟨sets, tables, extra, hsets, hchecked, htables, hsource⟩ := compile_eq_ok h
  have assembled := hsets
  rw [Run.outcome_mapM, Except.mapM_eq_ok_iff] at assembled
  refine ⟨sets, tables, extra, ⟨assembled, htables, hsource⟩, ?_⟩
  refine forall₂_of_mem assembled fun name s hname hs hassemble => ⟨?_, ?_⟩
  · obtain ⟨t, ht, hrun, hsub⟩ := Tables.exists_tables_of_ofSets htables hs
    lift s to SoundSet using sound_of_assemble hassemble
    refine ⟨t, ht, (s.tables_agree hrun).2,
      s.reported (checkAll_eq_ok_iff.mp hchecked s hs) hrun ?_ ?_⟩
    · intro e he
      exact Run.mem_journal_bind_right hsets
        (Run.mem_journal_bind_left (checkAll_journal hchecked hs he))
    · intro e he
      exact Run.mem_journal_bind_right hsets
        (Run.mem_journal_bind_right hchecked (Run.mem_journal_bind_left (hsub he)))
  · obtain ⟨d, hd, hresolve, hsub⟩ := exists_hasDraft_of_assemble hassemble
    refine ⟨d, hd, hresolve, d.clashesReported.mono fun e he => ?_⟩
    exact Run.mem_journal_bind_left (Run.mem_journal_mapM hsets hname (hsub he))

/-- A file of which everything is left out: a disabled message, one without a bus, and a disabled
command. -/
def leftOut : Catalog := ofFiles [
  ("set.json", objectText [
    ("buses", objectText [("hs", objectText [("controller", "1"), ("speed", "1")])]),
    ("messages", objectText [
      ("0x10", objectText [("bus", "\"hs\""), ("enabled", "false")]), ("0x11", objectText [])]),
    ("commands", "[" ++ objectText [("name", "\"stop\""), ("enabled", "false")] ++ "]")])]

theorem reported_of_compile_leftOut : ∃ g s tables extra,
    (leftOut.compile .usual ["set.json"]).outcome = .ok g ∧ g.tally = ⟨1, 0, 1, 0⟩ ∧
      leftOut.Compiled .usual ["set.json"] g [s] tables extra ∧
      leftOut.Accounts .usual tables (leftOut.compile .usual ["set.json"]).journal
        MessageSet.OnValidBus "set.json" s := by
  have hany : (leftOut.compile .usual ["set.json"]).outcome.toOption.any
      (fun g => g.tally = ⟨1, 0, 1, 0⟩) = true := by
    decide +kernel
  obtain ⟨g, hg, htally⟩ := Except.exists_of_any_toOption hany
  obtain ⟨sets, tables, extra, hcompiled, haccounts⟩ := reported_of_compile hg
  obtain ⟨s, rest, haccounted, hrest, rfl⟩ := List.forall₂_cons_left_iff.mp haccounts
  obtain rfl := List.forall₂_nil_left_iff.mp hrest
  exact ⟨g, s, tables, extra, hg, of_decide_eq_true htally, hcompiled, haccounted⟩

/-- A file with one message, which has no bus, and a signal with thirteen states. -/
def unplaced : Catalog := ofFiles [
  ("set.json", objectText [("messages", objectText [("0x10", objectText [
    ("signals", objectText [("gear", objectText [
      ("bit_position", "0"), ("bit_size", "4"), ("states", objectText [
        ("on", "[0, 1, 2, 3, 4, 5, 6, 7, 8, 9, 10, 11, 12]")])])])])])])]

/-- A signal whose message is on no valid bus may have more states than are emitted and be named by
no warning. -/
theorem not_forall_reports : ¬ ∀ (c : Catalog) (settings : Settings) (names : List String)
    (g : Generated), (c.compile settings names).outcome = .ok g →
      ∃ sets tables extra, c.Compiled settings names g sets tables extra ∧
        List.Forall₂ (c.Accounts settings tables (c.compile settings names).journal
          fun _ _ => True) names sets := by
  intro h
  have hcompile : (unplaced.compile .usual ["set.json"]).outcome.toOption.any
      (fun _ => true) = true := by
    decide +kernel
  have hsilent : (unplaced.compile .usual ["set.json"]).journal.all (fun e =>
      ¬ (e.level = .warn ∧ "gear".toList <:+: e.text.toList)) = true := by
    decide +kernel
  have hany : (unplaced.assemble .usual "set.json").outcome.toOption.any (fun s =>
      !s.signalEnabled ⟨0⟩ && s.signals[0]?.any fun x =>
        x.genericName = "gear" ∧ maxSignalStates < x.states.length) = true := by
    decide +kernel
  obtain ⟨g, hg, -⟩ := Except.exists_of_any_toOption hcompile
  obtain ⟨sets, tables, extra, hcompiled, haccounts⟩ := h unplaced .usual ["set.json"] g hg
  obtain ⟨s, rest, haccounted, -, rfl⟩ := List.forall₂_cons_left_iff.mp haccounts
  obtain ⟨hassemble, -⟩ := List.forall₂_cons.mp hcompiled.assembled
  obtain ⟨s', hs', hany⟩ := Except.exists_of_any_toOption hany
  obtain rfl := Except.ok.inj (hassemble.symm.trans hs')
  obtain ⟨hdisabled, hx⟩ := Bool.and_eq_true_iff.mp hany
  obtain ⟨x, hx, hstates⟩ := (Option.any_eq_true _ _).mp hx
  obtain ⟨hname, hmany⟩ := of_decide_eq_true hstates
  obtain ⟨t, -, hagrees, hreported⟩ := haccounted.rows
  -- The signal has no row, so none of its states is emitted.
  have hnone : t.emittedStates ⟨0⟩ = [] := by
    refine MessageSet.emittedStates_eq_nil fun hrow => ?_
    rw [(hagrees.mem_signals_iff ⟨0⟩).mp hrow] at hdisabled
    cases hdisabled
  have hfewer : (t.emittedStates ⟨0⟩).length < x.states.length := by
    rw [hnone]
    exact Nat.lt_of_le_of_lt (Nat.zero_le _) hmany
  obtain ⟨e, he, hwarn, hinfix⟩ := (hreported.states ⟨0⟩ x hx trivial hfewer).exists_occurrence
  rw [hname] at hinfix
  exact of_decide_eq_true (List.all_eq_true.mp hsilent e he) ⟨hwarn, hinfix⟩

end Catalog

end CanTables
