import CanTables.MessageSet.Basic
import Mathlib.Data.List.Basic

/-!
# CanTables.Proofs.MessageSet.Sound — message sets whose references agree

A message set refers to its parts by position, in three lists at once: a message has a bus, the bus
lists the message, the message lists its signals, and a signal has its message.  In a sound set all
of these agree, and every list is in its order.

`Sound.inRange`: no reference of a sound set leads outside its list.
-/

namespace CanTables

/-- One message may stand in front of another: the name of its bus comes first, no bus before any
bus, and on one bus its identifier does. -/
def Message.Precedes (a b : Message) : Prop :=
  a.busName < b.busName ∨ a.busName = b.busName ∧ a.id ≤ b.id

namespace MessageSet

/-- The references of a set agree and its lists are in order. -/
structure Sound (s : MessageSet) : Prop where
  buses_sorted : s.buses.Pairwise fun a b => a.name < b.name
  messages_sorted : s.messages.Pairwise Message.Precedes
  /-- A message is on the bus that it names. -/
  bus_eq_some_iff : ∀ m ∈ s.messages, ∀ r,
    m.bus = some r ↔ ∃ b, s.bus? r = some b ∧ m.busName = some b.name
  /-- A bus lists the messages that are on it. -/
  mem_bus_messages_iff : ∀ r b, s.bus? r = some b → ∀ k,
    k ∈ b.messages ↔ ∃ m, s.message? k = some m ∧ m.bus = some r
  /-- Along the messages of a bus identifiers strictly increase. -/
  bus_messages_sorted : ∀ b ∈ s.buses, b.messages.Pairwise fun k l =>
    ∃ m n, s.message? k = some m ∧ s.message? l = some n ∧ m.id < n.id
  /-- The signals of the first message are followed by those of the second, and so on. -/
  signals_tile :
    s.messages.flatMap Message.signals = (List.range s.signals.length).map Signal.Ref.mk
  /-- A signal has the message that lists it. -/
  signal_message : ∀ k m, s.message? k = some m → ∀ r ∈ m.signals,
    ∃ x, s.signal? r = some x ∧ x.message = k
  /-- A message lists its signals by generic name. -/
  message_signals_sorted : ∀ m ∈ s.messages, m.signals.Pairwise fun q r =>
    ∃ x y, s.signal? q = some x ∧ s.signal? r = some y ∧ x.genericName ≤ y.genericName
  states_sorted : ∀ x ∈ s.signals, x.states.Pairwise fun a b => a.value < b.value

/-- No reference of a set leads outside its list. -/
structure InRange (s : MessageSet) : Prop where
  message_bus : ∀ m ∈ s.messages, ∀ r, m.bus = some r → r.index < s.buses.length
  bus_messages : ∀ b ∈ s.buses, ∀ k ∈ b.messages, k.index < s.messages.length
  message_signals : ∀ m ∈ s.messages, ∀ r ∈ m.signals, r.index < s.signals.length
  signal_message : ∀ x ∈ s.signals, x.message.index < s.messages.length

/-! ## Positions -/

variable {s : MessageSet}

theorem bus?_eq_some_iff {r : Bus.Ref} {b : Bus} :
    s.bus? r = some b ↔ ∃ h : r.index < s.buses.length, s.buses[r.index] = b :=
  List.getElem?_eq_some_iff

theorem message?_eq_some_iff {k : Message.Ref} {m : Message} :
    s.message? k = some m ↔ ∃ h : k.index < s.messages.length, s.messages[k.index] = m :=
  List.getElem?_eq_some_iff

theorem signal?_eq_some_iff {r : Signal.Ref} {x : Signal} :
    s.signal? r = some x ↔ ∃ h : r.index < s.signals.length, s.signals[r.index] = x :=
  List.getElem?_eq_some_iff

theorem mem_of_message? {k : Message.Ref} {m : Message} (h : s.message? k = some m) :
    m ∈ s.messages := List.mem_of_getElem? h

theorem mem_of_bus? {r : Bus.Ref} {b : Bus} (h : s.bus? r = some b) : b ∈ s.buses :=
  List.mem_of_getElem? h

theorem exists_bus?_of_mem {b : Bus} (h : b ∈ s.buses) : ∃ r, s.bus? r = some b := by
  obtain ⟨i, hi, rfl⟩ := List.mem_iff_getElem.mp h
  exact ⟨⟨i⟩, List.getElem?_eq_getElem hi⟩

theorem exists_message?_of_mem {m : Message} (h : m ∈ s.messages) : ∃ k, s.message? k = some m := by
  obtain ⟨i, hi, rfl⟩ := List.mem_iff_getElem.mp h
  exact ⟨⟨i⟩, List.getElem?_eq_getElem hi⟩

theorem exists_signal?_of_mem {x : Signal} (h : x ∈ s.signals) : ∃ r, s.signal? r = some x := by
  obtain ⟨i, hi, rfl⟩ := List.mem_iff_getElem.mp h
  exact ⟨⟨i⟩, List.getElem?_eq_getElem hi⟩

end MessageSet

/-! ## Sets that are known to be sound -/

/-- A message set whose references agree and whose lists are in order. -/
structure SoundSet extends MessageSet, MessageSet.Sound toMessageSet

instance : Coe SoundSet MessageSet := ⟨SoundSet.toMessageSet⟩

instance : CanLift MessageSet SoundSet SoundSet.toMessageSet MessageSet.Sound :=
  ⟨fun _ h => ⟨⟨_, h⟩, rfl⟩⟩

namespace SoundSet

open MessageSet

variable (s : SoundSet)

/-- Every signal is listed by the message that it has. -/
theorem listed {r : Signal.Ref} {x : Signal} (hx : s.signal? r = some x) :
    ∃ m, s.message? x.message = some m ∧ r ∈ m.signals := by
  obtain ⟨hr, -⟩ := signal?_eq_some_iff.mp hx
  have hmem : r ∈ s.messages.flatMap Message.signals := by
    rw [s.signals_tile]
    exact List.mem_map.mpr ⟨r.index, List.mem_range.mpr hr, rfl⟩
  obtain ⟨m, hm, hrm⟩ := List.mem_flatMap.mp hmem
  obtain ⟨k, hk⟩ := exists_message?_of_mem hm
  obtain ⟨y, hy, rfl⟩ := s.signal_message k m hk r hrm
  rw [hx] at hy
  cases hy
  exact ⟨m, hk, hrm⟩

/-- No reference of a sound set leads outside its list. -/
theorem inRange : s.InRange where
  message_bus m hm r hr := by
    obtain ⟨b, hb, -⟩ := (s.bus_eq_some_iff m hm r).mp hr
    exact (bus?_eq_some_iff.mp hb).1
  bus_messages b hb k hk := by
    obtain ⟨r, hr⟩ := exists_bus?_of_mem hb
    obtain ⟨m, hm, -⟩ := (s.mem_bus_messages_iff r b hr k).mp hk
    exact (message?_eq_some_iff.mp hm).1
  message_signals m hm r hr := by
    obtain ⟨k, hk⟩ := exists_message?_of_mem hm
    obtain ⟨x, hx, -⟩ := s.signal_message k m hk r hr
    exact (signal?_eq_some_iff.mp hx).1
  signal_message x hx := by
    obtain ⟨r, hr⟩ := exists_signal?_of_mem hx
    obtain ⟨m, hm, -⟩ := s.listed hr
    exact (message?_eq_some_iff.mp hm).1

end SoundSet

end CanTables
