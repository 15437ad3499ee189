import CanTables.MessageSet.Derived
import CanTables.Proofs.MessageSet.Sound
import CanTables.Proofs.Order.Sorting

/-!
# CanTables.Proofs.MessageSet.Rows — what the lists in table order contain

`validBuses` has every bus that is attached to a controller once.  In a sound set `allMessages` has
every message on such a bus once and `allSignals` every signal of such a message, so that an enabled
message or signal is never missed.
-/

namespace CanTables

open Sorting

namespace MessageSet

variable {s : MessageSet}

/-! ## Valid buses -/

theorem mem_busRefs_iff {r : Bus.Ref} {b : Bus} : (r, b) ∈ s.busRefs ↔ s.bus? r = some b := by
  unfold busRefs bus?
  rw [List.mem_map]
  constructor
  · rintro ⟨⟨b', i⟩, hmem, heq⟩
    cases heq
    exact List.mk_mem_zipIdx_iff_getElem?.mp hmem
  · intro h
    exact ⟨(b, r.index), List.mk_mem_zipIdx_iff_getElem?.mpr h, rfl⟩

theorem busRefs_nodup : (s.busRefs.map Prod.fst).Nodup := by
  have hrefs : s.busRefs.map Prod.fst = (s.buses.zipIdx.map Prod.snd).map Bus.Ref.mk := by
    rw [busRefs, List.map_map, List.map_map]
    rfl
  rw [hrefs, List.zipIdx_map_snd]
  exact List.pairwise_map.mpr
    (List.Pairwise.imp (fun hne heq => hne (congrArg Bus.Ref.index heq)) List.nodup_range')

theorem mem_validBuses_iff {r : Bus.Ref} {b : Bus} :
    (r, b) ∈ s.validBuses ↔ s.bus? r = some b ∧ b.isValid = true := by
  unfold validBuses
  rw [mem_sortBy, List.mem_filter, mem_busRefs_iff]

/-- A bus has one row. -/
theorem validBuses_nodup : (s.validBuses.map Prod.fst).Nodup := by
  have hperm : (s.validBuses.map Prod.fst).Perm
      ((s.busRefs.filter fun entry => entry.2.isValid).map Prod.fst) := (sortBy_perm _ _).map _
  exact hperm.nodup_iff.mpr (busRefs_nodup.sublist (List.filter_sublist.map _))

theorem validBuses_sorted : s.validBuses.Pairwise fun p q =>
    p.2.controller.getD 0 ≤ q.2.controller.getD 0 :=
  sortBy_byKey_pairwise (fun entry : Bus.Ref × Bus => entry.2.controller.getD 0) _

theorem busValid_iff {r : Bus.Ref} :
    s.busValid r = true ↔ ∃ b, s.bus? r = some b ∧ b.isValid = true := by
  rw [busValid, Option.any_eq_true]

/-! ## Messages on valid buses -/

theorem enabledMessage_iff {m : Message} :
    s.enabledMessage m = true ↔
      m.enabled = true ∧ ∃ r, m.bus = some r ∧ s.busValid r = true := by
  rw [enabledMessage, Bool.and_eq_true, Option.any_eq_true]

theorem messageEnabled_iff {k : Message.Ref} :
    s.messageEnabled k = true ↔ ∃ m, s.message? k = some m ∧ s.enabledMessage m = true := by
  rw [messageEnabled, Option.any_eq_true]

theorem signalEnabled_iff {r : Signal.Ref} :
    s.signalEnabled r = true ↔ ∃ x, s.signal? r = some x ∧ s.enabledSignal x = true := by
  rw [signalEnabled, Option.any_eq_true]

/-- The messages that a bus lists, with their positions. -/
def messagesOf (s : MessageSet) (b : Bus) : List (Message.Ref × Message) :=
  b.messages.filterMap fun k => (s.message? k).map fun m => (k, m)

theorem mem_messagesOf_iff {b : Bus} {k : Message.Ref} {m : Message} :
    (k, m) ∈ s.messagesOf b ↔ k ∈ b.messages ∧ s.message? k = some m := by
  unfold messagesOf
  rw [List.mem_filterMap]
  constructor
  · rintro ⟨k', hk', heq⟩
    obtain ⟨m', hm', heq⟩ := Option.map_eq_some_iff.mp heq
    cases heq
    exact ⟨hk', hm'⟩
  · rintro ⟨hk, hm⟩
    exact ⟨k, hk, by rw [hm]; rfl⟩

end MessageSet

namespace SoundSet

open MessageSet

variable (s : SoundSet)

theorem mem_messagesOf_iff {r : Bus.Ref} {b : Bus} (hb : s.bus? r = some b)
    {k : Message.Ref} {m : Message} :
    (k, m) ∈ s.messagesOf b ↔ s.message? k = some m ∧ m.bus = some r := by
  rw [MessageSet.mem_messagesOf_iff, s.mem_bus_messages_iff r b hb k]
  constructor
  · rintro ⟨⟨m', hm', hbus⟩, hm⟩
    cases hm.symm.trans hm'
    exact ⟨hm, hbus⟩
  · rintro ⟨hm, hbus⟩
    exact ⟨⟨m, hm, hbus⟩, hm⟩

/-- The rows come from the messages on valid buses. -/
theorem mem_allMessages_iff {k : Message.Ref} {m : Message} :
    (k, m) ∈ s.allMessages ↔
      s.message? k = some m ∧ ∃ r, m.bus = some r ∧ s.busValid r = true := by
  show (k, m) ∈ s.validBuses.flatMap (fun entry => s.messagesOf entry.2) ↔ _
  rw [List.mem_flatMap]
  constructor
  · rintro ⟨⟨r, b⟩, hvalid, hk⟩
    obtain ⟨hb, hvalid⟩ := mem_validBuses_iff.mp hvalid
    obtain ⟨hm, hbus⟩ := (s.mem_messagesOf_iff hb).mp hk
    exact ⟨hm, r, hbus, busValid_iff.mpr ⟨b, hb, hvalid⟩⟩
  · rintro ⟨hm, r, hbus, hvalid⟩
    obtain ⟨b, hb, hvalid⟩ := busValid_iff.mp hvalid
    exact ⟨(r, b), mem_validBuses_iff.mpr ⟨hb, hvalid⟩, (s.mem_messagesOf_iff hb).mpr ⟨hm, hbus⟩⟩

theorem messagesOf_sorted {b : Bus} (hb : b ∈ s.buses) :
    (s.messagesOf b).Pairwise fun p q => p.2.id < q.2.id := by
  unfold messagesOf
  refine List.pairwise_filterMap.mpr ((s.bus_messages_sorted b hb).imp ?_)
  rintro k l ⟨m, n, hm, hn, hlt⟩ p hp q hq
  rw [hm] at hp
  rw [hn] at hq
  cases hp
  cases hq
  exact hlt

/-- Messages come bus by bus, and on one bus by identifier. -/
theorem allMessages_pairwise {R : Bus.Ref → Bus.Ref → Prop}
    (hR : (s.validBuses.map Prod.fst).Pairwise R) :
    s.allMessages.Pairwise fun p q =>
      ∃ r r', p.2.bus = some r ∧ q.2.bus = some r' ∧ (R r r' ∨ r = r' ∧ p.2.id < q.2.id) := by
  show (s.validBuses.flatMap fun entry => s.messagesOf entry.2).Pairwise _
  refine List.pairwise_flatMap.mpr ⟨?_, ?_⟩
  · rintro ⟨r, b⟩ hvalid
    obtain ⟨hb, -⟩ := mem_validBuses_iff.mp hvalid
    refine (s.messagesOf_sorted (mem_of_bus? hb)).imp_of_mem fun {p q} hp hq hlt => ?_
    exact ⟨r, r, ((s.mem_messagesOf_iff hb).mp hp).2, ((s.mem_messagesOf_iff hb).mp hq).2,
      .inr ⟨rfl, hlt⟩⟩
  · refine (List.pairwise_map.mp hR).imp_of_mem ?_
    rintro ⟨r, b⟩ ⟨r', b'⟩ hvalid hvalid' hrr' p hp q hq
    obtain ⟨hb, -⟩ := mem_validBuses_iff.mp hvalid
    obtain ⟨hb', -⟩ := mem_validBuses_iff.mp hvalid'
    exact ⟨r, r', ((s.mem_messagesOf_iff hb).mp hp).2, ((s.mem_messagesOf_iff hb').mp hq).2,
      .inl hrr'⟩

/-- A message has at most one row. -/
theorem allMessages_nodup : (s.allMessages.map Prod.fst).Nodup := by
  refine List.pairwise_map.mpr ((s.allMessages_pairwise validBuses_nodup).imp_of_mem ?_)
  rintro ⟨k, m⟩ ⟨l, n⟩ hp hq ⟨r, r', hbus, hbus', hne⟩ heq
  obtain ⟨hm, -⟩ := s.mem_allMessages_iff.mp hp
  obtain ⟨hn, -⟩ := s.mem_allMessages_iff.mp hq
  cases (show k = l from heq)
  cases hm.symm.trans hn
  rcases hne with hne | ⟨-, hlt⟩
  · exact hne (Option.some.inj (hbus.symm.trans hbus'))
  · exact Std.lt_irrefl hlt

/-! ## Signals of messages on valid buses -/

/-- The positions of the signals are those that the messages list. -/
theorem allSignals_refs :
    s.allSignals.map Prod.fst = s.allMessages.flatMap fun entry => entry.2.signals := by
  unfold allSignals
  rw [List.map_flatMap]
  refine List.flatMap_congr fun ⟨k, m⟩ hmem => ?_
  obtain ⟨hm, -⟩ := s.mem_allMessages_iff.mp hmem
  have hlisted := s.signal_message k m hm
  show List.map Prod.fst (m.signals.filterMap fun r => (s.signal? r).map fun x => (r, x)) = m.signals
  generalize m.signals = signals at hlisted ⊢
  induction signals with
  | nil => rfl
  | cons r rest ih =>
    obtain ⟨⟨x, hx, -⟩, hrest⟩ := List.forall_mem_cons.mp hlisted
    rw [List.filterMap_cons, hx]
    exact congrArg (r :: ·) (ih hrest)

/-- The signals have the messages that list them. -/
theorem mem_allSignals_iff {r : Signal.Ref} {x : Signal} :
    (r, x) ∈ s.allSignals ↔ s.signal? r = some x ∧ ∃ m, (x.message, m) ∈ s.allMessages := by
  unfold allSignals
  rw [List.mem_flatMap]
  constructor
  · rintro ⟨⟨k, m⟩, hmem, hx⟩
    obtain ⟨r', hr', heq⟩ := List.mem_filterMap.mp hx
    obtain ⟨x', hx', heq⟩ := Option.map_eq_some_iff.mp heq
    cases heq
    obtain ⟨hm, -⟩ := s.mem_allMessages_iff.mp hmem
    obtain ⟨y, hy, rfl⟩ := s.signal_message k m hm r hr'
    cases hx'.symm.trans hy
    exact ⟨hx', m, hmem⟩
  · rintro ⟨hx, m, hmem⟩
    obtain ⟨hm, -⟩ := s.mem_allMessages_iff.mp hmem
    obtain ⟨m', hm', hr⟩ := s.listed hx
    cases hm.symm.trans hm'
    exact ⟨(x.message, m), hmem, List.mem_filterMap.mpr ⟨r, hr, by rw [hx]; rfl⟩⟩

/-- Signals come in the order of their messages. -/
theorem allSignals_pairwise {R : Message.Ref → Message.Ref → Prop}
    (hR : (s.allMessages.map Prod.fst).Pairwise R) :
    s.allSignals.Pairwise fun p q => p.2.message = q.2.message ∨ R p.2.message q.2.message := by
  have howner : ∀ entry ∈ s.allMessages, ∀ p ∈ entry.2.signals.filterMap (fun r =>
      (s.signal? r).map fun x => (r, x)), p.2.message = entry.1 := by
    rintro ⟨k, m⟩ hmem p hp
    obtain ⟨hm, -⟩ := s.mem_allMessages_iff.mp hmem
    obtain ⟨r, hr, heq⟩ := List.mem_filterMap.mp hp
    obtain ⟨x, hx, rfl⟩ := Option.map_eq_some_iff.mp heq
    obtain ⟨y, hy, hown⟩ := s.signal_message k m hm r hr
    cases hx.symm.trans hy
    exact hown
  refine List.pairwise_flatMap.mpr ⟨fun entry hmem => ?_, ?_⟩
  · refine List.pairwise_of_forall_mem_list fun p hp q hq => ?_
    exact .inl ((howner entry hmem p hp).trans (howner entry hmem q hq).symm)
  · refine (List.pairwise_map.mp hR).imp_of_mem fun {e e'} he he' hee' p hp q hq => ?_
    rw [howner e he p hp, howner e' he' q hq]
    exact .inr hee'

/-- A signal has at most one row. -/
theorem allSignals_nodup : (s.allSignals.map Prod.fst).Nodup := by
  have htile : (s.messages.flatMap Message.signals).Nodup := by
    rw [s.signals_tile]
    exact List.pairwise_map.mpr
      (List.Pairwise.imp (fun hne heq => hne (congrArg Signal.Ref.index heq)) List.nodup_range)
  obtain ⟨hown, -⟩ := List.pairwise_flatMap.mp htile
  rw [s.allSignals_refs]
  refine List.pairwise_flatMap.mpr ⟨?_, ?_⟩
  · rintro ⟨k, m⟩ hmem
    exact hown m (mem_of_message? (s.mem_allMessages_iff.mp hmem).1)
  · refine (List.pairwise_map.mp s.allMessages_nodup).imp_of_mem ?_
    rintro ⟨k, m⟩ ⟨l, n⟩ hp hq hne r hr r' hr' rfl
    -- Two messages that list one signal are both the message of that signal.
    obtain ⟨x, hx, hxk⟩ := s.signal_message k m (s.mem_allMessages_iff.mp hp).1 r hr
    obtain ⟨y, hy, hyl⟩ := s.signal_message l n (s.mem_allMessages_iff.mp hq).1 r hr'
    cases hx.symm.trans hy
    exact hne (hxk.symm.trans hyl)

end SoundSet

end CanTables
