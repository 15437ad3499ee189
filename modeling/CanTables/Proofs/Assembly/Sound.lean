import CanTables.Proofs.Assembly.Arrange
import CanTables.Proofs.Assembly.Drafts
import CanTables.Proofs.Assembly.Lineage
import CanTables.Proofs.Declaration.File
import CanTables.Proofs.Store.Files
import Mathlib.Data.Set.List

/-!
# CanTables.Proofs.Assembly.Sound — assembled sets are sound

The set of a draft is sound when its buses are in name order and its drafts are distinct, which is
what a `SoundDraft` carries.  The first holds because files are read into maps in key order, the
second because every statement keeps the drafts distinct.
-/

namespace CanTables

open Declaration Document Positions Sorting

namespace Sorting

theorem optionLt_eq_true_iff {κ : Type} [LT κ] [DecidableLT κ] {a b : Option κ} :
    optionLt a b = true ↔ a < b := by
  cases a <;> cases b <;> simp [optionLt]

end Sorting

/-- The draft of a set whose buses are in order and whose messages are distinct. -/
structure SoundDraft extends SetDraft where
  buses_ordered : buses.Ordered
  messages_distinct : messages.Distinct

namespace SetDraft

variable {d : SetDraft} {requests : List Request}

/-! ## The order of messages -/

/-- Messages stand in the order of their drafts. -/
theorem messages_pairwise_iff {R : Option String × UInt32 → Option String × UInt32 → Prop} :
    (d.resolveWith requests).messages.Pairwise
        (fun a b => R (a.busName, a.id) (b.busName, b.id)) ↔
      d.orderedMessages.Pairwise fun a b => R (a.bus, a.id) (b.bus, b.id) := by
  have hmessages := List.pairwise_map (R := R) (f := fun m : Message => (m.busName, m.id))
    (l := (d.resolveWith requests).messages)
  have hdrafts := List.pairwise_map (R := R) (f := fun e : MessageDraft => (e.bus, e.id))
    (l := d.orderedMessages)
  rw [← hmessages, ← hdrafts, messages_map_key]

theorem messages_sorted : (d.resolveWith requests).messages.Pairwise Message.Precedes := by
  have linear : Linear (thenLt (optionLt (κ := String)) fun a b : UInt32 => decide (a < b)) :=
    Linear.optionLt.thenLt Linear.of_lt
  have h := sortBy_key_pairwise linear (fun e : MessageDraft => (e.bus, e.id)) d.messages
  refine (messages_pairwise_iff
    (R := fun p q => thenLt optionLt (fun a b => decide (a < b)) q p = false)).mpr h |>.imp ?_
  intro a b hab
  rw [← Bool.not_eq_true, thenLt_eq_true_iff Linear.optionLt, not_or, not_and] at hab
  obtain ⟨hbus, hid⟩ := hab
  by_cases hlt : a.busName < b.busName
  · exact .inl hlt
  · have heq : b.busName = a.busName := Linear.optionLt.eq_of_not
      (Bool.eq_false_iff.mpr hbus)
      (Bool.eq_false_iff.mpr fun h => hlt (optionLt_eq_true_iff.mp h))
    exact .inr ⟨heq.symm, Std.not_lt.mp fun h => hid heq (decide_eq_true h)⟩

end SetDraft

namespace SoundDraft

open SetDraft

variable (d : SoundDraft) {requests : List Request}

/-- No two messages on one bus have one identifier. -/
theorem messages_apart :
    (d.resolveWith requests).messages.Pairwise fun a b =>
      a.id = b.id → a.busName = b.busName → a.busName = none := by
  refine (messages_pairwise_iff (R := fun p q => p.2 = q.2 → p.1 = q.1 → p.1 = none)).mpr ?_
  exact ((sortBy_perm _ d.messages).pairwise_iff Drafts.Apart.symm).mpr d.messages_distinct

/-! ## References -/

/-- A message is on the bus that it names. -/
theorem bus_eq_some_iff {m : Message}
    (hm : m ∈ (d.resolveWith requests).messages) {r : Bus.Ref} :
    m.bus = some r ↔
      ∃ b, (d.resolveWith requests).bus? r = some b ∧ m.busName = some b.name := by
  obtain ⟨k, hk⟩ := MessageSet.exists_message?_of_mem hm
  obtain ⟨draft, -, hresolve, -⟩ := message?_resolveWith hk
  rw [hresolve]
  show draft.bus.bind (busRef? d.buses) = some r ↔
    ∃ b, (d.resolveWith requests).bus? r = some b ∧ draft.bus = some b.name
  constructor
  · intro hbus
    obtain ⟨name, hname, hr⟩ := Option.bind_eq_some_iff.mp hbus
    obtain ⟨entry, hentry⟩ := (busRef?_eq_some_iff ⟨_, d.buses_ordered⟩).mp hr
    exact ⟨_, bus?_resolveWith.mpr ⟨name, entry, hentry, rfl⟩, hname⟩
  · rintro ⟨b, hb, hname⟩
    obtain ⟨name, entry, hentry, rfl⟩ := bus?_resolveWith.mp hb
    rw [hname]
    exact (busRef?_eq_some_iff ⟨_, d.buses_ordered⟩).mpr ⟨entry, hentry⟩

theorem bus_messages_sorted {b : Bus}
    (hb : b ∈ (d.resolveWith requests).buses) :
    b.messages.Pairwise fun k l => ∃ m n, (d.resolveWith requests).message? k = some m ∧
      (d.resolveWith requests).message? l = some n ∧ m.id < n.id := by
  obtain ⟨r, hr⟩ := MessageSet.exists_bus?_of_mem hb
  obtain ⟨name, entry, -, rfl⟩ := bus?_resolveWith.mp hr
  refine (messagesOn_pairwise (messages_sorted.and d.messages_apart) r).imp ?_
  rintro k l ⟨m, n, hm, hn, hmbus, hnbus, hprecedes, hapart⟩
  refine ⟨m, n, hm, hn, ?_⟩
  -- Both messages name the bus, so only their identifiers can tell them apart.
  obtain ⟨b, hb, hmname⟩ := (d.bus_eq_some_iff (List.mem_of_getElem? hm)).mp hmbus
  obtain ⟨b', hb', hnname⟩ := (d.bus_eq_some_iff (List.mem_of_getElem? hn)).mp hnbus
  cases hb.symm.trans hb'
  rcases hprecedes with hlt | ⟨-, hle⟩
  · rw [hmname, hnname] at hlt
    exact absurd hlt (Std.lt_irrefl (α := String))
  · refine Std.lt_of_le_of_ne hle fun hid => ?_
    have := hapart hid (hmname.trans hnname.symm)
    exact nomatch hmname.symm.trans this

/-- The set of a sound draft, which is sound. -/
def resolved (requests : List Request) : SoundSet where
  toMessageSet := d.resolveWith requests
  buses_sorted := by
    show (List.map _ d.buses.zipIdx).Pairwise _
    rw [List.pairwise_map, List.pairwise_iff_getElem]
    intro i j hi hj hij
    rw [List.getElem_zipIdx, List.getElem_zipIdx]
    rw [List.length_zipIdx] at hi hj
    exact List.pairwise_iff_getElem.mp d.buses_ordered i j hi hj hij
  messages_sorted := messages_sorted
  bus_eq_some_iff m hm r := d.bus_eq_some_iff hm
  mem_bus_messages_iff r b hb k := by
    obtain ⟨name, entry, -, rfl⟩ := bus?_resolveWith.mp hb
    exact mem_messagesOn_iff
  bus_messages_sorted b hb := d.bus_messages_sorted hb
  signals_tile := by
    have htile := arrange_signals d.buses 0 0 d.orderedMessages
    rw [← List.range_eq_range'] at htile
    rw [resolveWith_messages, List.flatMap_map]
    exact htile
  signal_message k m hm r hr := by
    obtain ⟨draft, -, -, hlisted⟩ := message?_resolveWith hm
    obtain ⟨x, hx, hr⟩ := exists_right_of_forall₂ hlisted hr
    obtain ⟨entry, -, rfl⟩ := MessageDraft.mem_resolveSignals_iff.mp hx
    exact ⟨_, hr, rfl⟩
  message_signals_sorted m hm := by
    obtain ⟨k, hk⟩ := MessageSet.exists_message?_of_mem hm
    obtain ⟨draft, -, -, hlisted⟩ := message?_resolveWith hk
    exact pairwise_of_forall₂ hlisted (draft.resolveSignals_sorted k)
  states_sorted x hx := by
    obtain ⟨p, hp, hx⟩ := List.mem_flatMap.mp hx
    obtain ⟨before, after, hsplit⟩ := List.append_of_mem hp
    obtain ⟨draft, -, hsignals, -⟩ := exists_of_arrange_eq hsplit
    rw [hsignals] at hx
    obtain ⟨entry, -, rfl⟩ := MessageDraft.mem_resolveSignals_iff.mp hx
    exact states_ordered _

end SoundDraft

/-! ## Assembled sets -/

theorem SetDraft.resolve_eq_ok_iff {d : SetDraft} {s : MessageSet} :
    d.resolve.outcome = .ok s ↔
      ∃ requests, d.requests.mapM resolveRequest = .ok requests ∧ s = d.resolveWith requests := by
  constructor
  · intro h
    obtain ⟨-, -, h⟩ := Run.bind_outcome_eq_ok_iff.mp h
    obtain ⟨requests, hrequests, h⟩ := Run.bind_outcome_eq_ok_iff.mp h
    obtain ⟨-, -, h⟩ := Run.bind_outcome_eq_ok_iff.mp h
    exact ⟨requests, hrequests, (Except.ok.inj h).symm⟩
  · rintro ⟨requests, hrequests, rfl⟩
    refine Run.bind_outcome_eq_ok_iff.mpr ⟨(), rfl, ?_⟩
    exact Run.bind_outcome_eq_ok_iff.mpr ⟨requests, hrequests, rfl⟩

namespace Catalog

variable {c : Catalog} {settings : Settings} {name : String}

theorem draft_eq_ok {file : SetFile} {d : SetDraft}
    (h : (c.draft settings name file).outcome = .ok d) :
    d.buses = file.buses ∧
      ∃ contributed, mergeMessages contributed file.messages = .ok d.messages := by
  obtain ⟨-, -, h⟩ := Run.bind_outcome_eq_ok_iff.mp h
  obtain ⟨contribution, -, h⟩ := Run.bind_outcome_eq_ok_iff.mp h
  obtain ⟨messages, hmessages, h⟩ := Run.bind_outcome_eq_ok_iff.mp h
  obtain rfl := Except.ok.inj h
  exact ⟨rfl, contribution.messages, hmessages⟩

/-- A name stands for a set with this draft. -/
def HasDraft (c : Catalog) (settings : Settings) (name : String) (d : SetDraft) : Prop :=
  ∃ lineage file, (c.lineage name).outcome = .ok lineage ∧
    readRecord SetFile.read ("message set " ++ lineage.path) lineage.merged = .ok file ∧
    (c.draft settings (file.name.getD usualSetName) file).outcome = .ok d

/-- A set is assembled by resolving its draft. -/
theorem exists_hasDraft_of_assemble {s : MessageSet}
    (h : (c.assemble settings name).outcome = .ok s) :
    ∃ d, c.HasDraft settings name d ∧ d.resolve.outcome = .ok s ∧
      d.resolve.journal ⊆ (c.assemble settings name).journal := by
  obtain ⟨lineage, hlineage, h⟩ := Run.bind_outcome_eq_ok_iff.mp h
  obtain ⟨file, hfile, h⟩ := Run.bind_outcome_eq_ok_iff.mp h
  obtain ⟨-, -, h⟩ := Run.bind_outcome_eq_ok_iff.mp h
  obtain ⟨d, hd, h⟩ := Run.bind_outcome_eq_ok_iff.mp h
  refine ⟨d, ⟨lineage, file, hlineage, hfile, hd⟩, h, fun e he => ?_⟩
  refine Run.mem_journal_bind_right hlineage (Run.mem_journal_bind_right hfile ?_)
  exact Run.mem_journal_bind_right rfl (Run.mem_journal_bind_right hd he)

/-- An assembled set is that of a sound draft. -/
theorem exists_draft_of_assemble {s : MessageSet}
    (h : (c.assemble settings name).outcome = .ok s) :
    ∃ (d : SoundDraft) (requests : List Request), s = d.resolved requests := by
  obtain ⟨d, ⟨lineage, file, hlineage, hfile, hd⟩, hresolve, -⟩ := exists_hasDraft_of_assemble h
  obtain ⟨requests, -, rfl⟩ := SetDraft.resolve_eq_ok_iff.mp hresolve
  obtain ⟨hbuses, contributed, hmessages⟩ := draft_eq_ok hd
  have hordered : d.buses.Ordered := by
    rw [hbuses]
    lift lineage to OrderedLineage using lineageBelow_ordered hlineage
    exact SetFile.buses_ordered (v := lineage.merged) (readRecord_eq_ok_iff.mp hfile)
  exact ⟨⟨d, hordered, mergeMessages_distinct hmessages⟩, requests, rfl⟩

/-- Every assembled set is sound. -/
theorem sound_of_assemble {s : MessageSet} (h : (c.assemble settings name).outcome = .ok s) :
    s.Sound := by
  obtain ⟨d, requests, rfl⟩ := exists_draft_of_assemble h
  exact (d.resolved requests).toSound

/-- Sets that were all assembled are the sets of a list of sound ones. -/
theorem exists_soundSets {sets : List MessageSet}
    (assembled : ∀ s ∈ sets, ∃ (c : Catalog) (settings : Settings) (name : String),
      (c.assemble settings name).outcome = .ok s) :
    ∃ sound : List SoundSet, sets = sound.map SoundSet.toMessageSet := by
  have sound : ∀ s ∈ sets, s.Sound := by
    intro s hs
    obtain ⟨c, settings, name, hassemble⟩ := assembled s hs
    exact sound_of_assemble hassemble
  lift sets to List SoundSet using sound
  exact ⟨sets, rfl⟩

/-- Whatever the files say, in an assembled set all references agree, all lists are in order, and no
reference leads outside its list. -/
theorem references_of_assemble {s : MessageSet}
    (h : (c.assemble settings name).outcome = .ok s) : s.Sound ∧ s.InRange :=
  ⟨sound_of_assemble h, SoundSet.inRange ⟨s, sound_of_assemble h⟩⟩

/-- A set over a parent: one message is on a bus and has two signals, another one has no bus. -/
def layered : Catalog := ofFiles [
  ("parent.json", objectText [
    ("buses", objectText [("hs", objectText [("controller", "1"), ("speed", "500000")])]),
    ("messages", objectText [("0x10", objectText [
      ("bus", "\"hs\""),
      ("signals", objectText [
        ("gear", objectText [("bit_position", "0"), ("bit_size", "4"),
          ("states", objectText [("drive", "[2, 1]")])]),
        ("door", objectText [("bit_position", "4"), ("bit_size", "1")])])])])]),
  ("child.json", objectText [
    ("parents", "[\"parent.json\"]"),
    ("messages", objectText [("0x8", objectText [])])])]

theorem references_of_assemble_layered : ∃ s : MessageSet,
    (layered.assemble .usual "child.json").outcome = .ok s ∧
      (s.buses.length = 1 ∧ s.messages.length = 2 ∧ s.signals.length = 2) ∧
      s.Sound ∧ s.InRange := by
  have hany : (layered.assemble .usual "child.json").outcome.toOption.any (fun s =>
      s.buses.length = 1 ∧ s.messages.length = 2 ∧ s.signals.length = 2) = true := by
    decide +kernel
  obtain ⟨s, hs, hlengths⟩ := Except.exists_of_any_toOption hany
  exact ⟨s, hs, of_decide_eq_true hlengths, references_of_assemble hs⟩

end Catalog

end CanTables
