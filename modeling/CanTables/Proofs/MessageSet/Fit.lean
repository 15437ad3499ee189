import CanTables.MessageSet.Check
import CanTables.Proofs.MessageSet.Rows

/-!
# CanTables.Proofs.MessageSet.Fit — which message sets are fit

The check walks over all messages for their buses and over the signals of messages on valid buses
for their places, whether they are enabled or not.  Only two of its findings are fatal, so a sound
set is unfit exactly if it has no name or lacks the place of such a signal
(`SoundSet.isFit_eq_false_iff`).

What the check asks of all these signals, the enabled ones have in particular
(`SoundSet.complete_of_isFit`): that is what making tables relies on.
-/

namespace CanTables

namespace MessageSet

variable {s : MessageSet}

/-- Some signal of a message on a valid bus lacks its position or its size. -/
def Incomplete (s : MessageSet) : Prop :=
  ∃ x ∈ s.signals, (x.bitPosition = none ∨ x.bitSize = none) ∧
    ∃ m, s.message? x.message = some m ∧ ∃ r, m.bus = some r ∧ s.busValid r = true

/-- The check itself never fails, it only says whether the set is fit. -/
theorem check_outcome : s.check.outcome = .ok s.isFit := rfl

/-! ## Fatal findings -/

theorem acceptable_append (findings findings' : List Finding) :
    acceptable (findings ++ findings') = (acceptable findings && acceptable findings') :=
  List.all_append

theorem acceptable_flatMap {α : Type} {f : α → List Finding} {l : List α} :
    acceptable (l.flatMap f) = true ↔ ∀ a ∈ l, acceptable (f a) = true := by
  rw [acceptable, List.all_flatMap, List.all_eq_true]
  rfl

theorem acceptable_nameFindings : acceptable s.nameFindings = true ↔ s.name ≠ "" := by
  unfold nameFindings
  split
  · next hname => exact ⟨fun h => absurd h Bool.false_ne_true, fun h => absurd hname h⟩
  · next hname => exact ⟨fun _ => hname, fun _ => rfl⟩

/-- Whatever is found about the bus of a message, the set may be compiled without the message. -/
theorem acceptable_busFindings (m : Message) : acceptable (s.busFindings m) = true := by
  unfold busFindings
  split
  · rfl
  · rfl
  · split <;> rfl

theorem acceptable_signalFindings {x : Signal} :
    acceptable (s.signalFindings x) = true ↔ x.bitPosition ≠ none ∧ x.bitSize ≠ none := by
  unfold signalFindings
  rw [acceptable_append, Bool.and_eq_true]
  constructor
  · rintro ⟨-, h⟩
    split at h
    · cases h
    · next hcomplete => simpa using hcomplete
  · rintro ⟨hposition, hsize⟩
    refine ⟨by split <;> rfl, ?_⟩
    rw [if_neg (by simpa using ⟨hposition, hsize⟩)]
    rfl

theorem isFit_iff : s.isFit = true ↔
    s.name ≠ "" ∧ ∀ entry ∈ s.allSignals, entry.2.bitPosition ≠ none ∧ entry.2.bitSize ≠ none := by
  have hmessages : acceptable s.messageFindings = true ↔
      ∀ entry ∈ s.allSignals, entry.2.bitPosition ≠ none ∧ entry.2.bitSize ≠ none := by
    rw [messageFindings, acceptable_append, Bool.and_eq_true, acceptable_flatMap,
      acceptable_flatMap]
    refine ⟨fun h entry hentry => acceptable_signalFindings.mp (h.2 entry hentry), fun h => ?_⟩
    exact ⟨fun m _ => acceptable_busFindings m,
      fun entry hentry => acceptable_signalFindings.mpr (h entry hentry)⟩
  rw [isFit, findings]
  by_cases hname : s.name = ""
  · have hname' : acceptable s.nameFindings = false := by
      simpa using acceptable_nameFindings.not.mpr (not_not_intro hname)
    simp [hname', hname]
  · rw [if_pos (acceptable_nameFindings.mpr hname), hmessages]
    exact ⟨fun h => ⟨hname, h⟩, fun h => h.2⟩

end MessageSet

namespace SoundSet

open MessageSet

variable (s : SoundSet)

/-- The signals that the check looks at are those of messages on valid buses. -/
theorem incomplete_iff : s.Incomplete ↔
    ∃ entry ∈ s.allSignals, entry.2.bitPosition = none ∨ entry.2.bitSize = none := by
  constructor
  · rintro ⟨x, hx, hlacks, m, hm, hbus⟩
    obtain ⟨r, hr⟩ := exists_signal?_of_mem hx
    have hmem := s.mem_allMessages_iff.mpr ⟨hm, hbus⟩
    exact ⟨(r, x), s.mem_allSignals_iff.mpr ⟨hr, m, hmem⟩, hlacks⟩
  · rintro ⟨⟨r, x⟩, hentry, hlacks⟩
    obtain ⟨hx, m, hmem⟩ := s.mem_allSignals_iff.mp hentry
    obtain ⟨hm, hbus⟩ := s.mem_allMessages_iff.mp hmem
    exact ⟨x, List.mem_of_getElem? hx, hlacks, m, hm, hbus⟩

/-- A set is unfit exactly if it has no name or a signal of a message on a valid bus lacks its
place. -/
theorem isFit_eq_false_iff : s.isFit = false ↔ s.name = "" ∨ s.Incomplete := by
  rw [← Bool.not_eq_true, isFit_iff, s.incomplete_iff, not_and_or, not_not]
  refine or_congr_right ?_
  simp only [not_forall, not_and_or, not_not, exists_prop]

/-- An enabled signal of a fit set has a position and a size. -/
theorem complete_of_isFit (fit : s.isFit = true) {r : Signal.Ref} {x : Signal}
    (hx : s.signal? r = some x) (enabled : s.enabledSignal x = true) :
    ∃ position size, x.bitPosition = some position ∧ x.bitSize = some size := by
  obtain ⟨-, howner⟩ := Bool.and_eq_true_iff.mp enabled
  obtain ⟨m, hm, henabled⟩ := messageEnabled_iff.mp howner
  obtain ⟨-, hbus⟩ := enabledMessage_iff.mp henabled
  have hmem := s.mem_allSignals_iff.mpr ⟨hx, m, s.mem_allMessages_iff.mpr ⟨hm, hbus⟩⟩
  obtain ⟨hposition, hsize⟩ := (isFit_iff.mp fit).2 _ hmem
  obtain ⟨position, hposition⟩ := Option.ne_none_iff_exists'.mp hposition
  obtain ⟨size, hsize⟩ := Option.ne_none_iff_exists'.mp hsize
  exact ⟨position, size, hposition, hsize⟩

end SoundSet

end CanTables
