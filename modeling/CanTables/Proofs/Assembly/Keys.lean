import CanTables.Assembly.Keys
import CanTables.Proofs.Document.Pile
import CanTables.Proofs.Identifier
import CanTables.Proofs.Journal
import Mathlib.Data.List.Induction

/-!
# CanTables.Proofs.Assembly.Keys — what stands under a canonical key

Canonical keys exist exactly when every key spells an identifier.  Under the canonical key of an
identifier then stand the values of all its spellings, laid over each other in the order of the
spellings (`canonicalKeys_eq_ok_iff`).
-/

namespace CanTables

open Document Value

/-! ## Spellings -/

/-- The entries whose keys spell an identifier. -/
def spelled (id : UInt32) (messages : Fields) : Fields :=
  messages.filter fun entry => Identifier.parse? entry.1 = some id

theorem mem_spelled_iff {id : UInt32} {messages : Fields} {entry : String × Value} :
    entry ∈ spelled id messages ↔ entry ∈ messages ∧ Identifier.parse? entry.1 = some id := by
  rw [spelled, List.mem_filter, decide_eq_true_iff]

theorem spelled_ordered (messages : OrderedKeyed String Value) (id : UInt32) :
    Keyed.Ordered (spelled id messages) := messages.ordered.filter _

theorem spelled_concat (id : UInt32) (messages : Fields) (entry : String × Value) :
    spelled id (messages ++ [entry]) =
      spelled id messages ++ if Identifier.parse? entry.1 = some id then [entry] else [] := by
  rw [spelled, List.filter_append, List.filter_singleton]
  simp [spelled]

theorem identify_eq_ok_iff {key : String} {id : UInt32} :
    identify key = .ok id ↔ Identifier.parse? key = some id := by
  unfold identify
  cases Identifier.parse? key <;> simp

/-! ## Canonical keys -/

/-- What holds of the messages under canonical keys that others were brought to. -/
structure IsCanonical (messages canonical : Fields) : Prop where
  /-- Every key of the messages spells an identifier. -/
  identifiers : ∀ entry ∈ messages, ∃ id, Identifier.parse? entry.1 = some id
  ordered : canonical.Ordered
  /-- Every key is canonical. -/
  keys : ∀ key ∈ canonical.keys, ∃ id, key = Identifier.key id
  /-- The spellings of an identifier meet under its canonical key. -/
  get?_key : ∀ id, canonical.get? (Identifier.key id) =
    layered ((spelled id messages).map Prod.snd)

namespace IsCanonical

/-- One more entry is put on top of what its canonical key has. -/
theorem concat {messages canonical : Fields} (h : IsCanonical messages canonical)
    {entry : String × Value} {id : UInt32} (hid : Identifier.parse? entry.1 = some id) :
    IsCanonical (messages ++ [entry]) (Keyed.upsert (Identifier.key id)
      (fun
        | none => entry.2
        | some earlier => overlay earlier entry.2) canonical) where
  identifiers := by
    intro other hmem
    rcases List.mem_append.mp hmem with hmem | hmem
    · exact h.identifiers other hmem
    · rw [List.mem_singleton.mp hmem]
      exact ⟨id, hid⟩
  ordered := h.ordered.upsert _ _
  keys := by
    intro key hkey
    rcases Keyed.mem_keys_upsert.mp hkey with rfl | hkey
    · exact ⟨id, rfl⟩
    · exact h.keys key hkey
  get?_key := by
    intro other
    rw [h.ordered.get?_upsert, spelled_concat]
    -- Under the key of this identifier the new value comes on top, under others nothing changes.
    by_cases hother : other = id
    · subst hother
      rw [if_pos rfl, if_pos hid, List.map_append, List.map_singleton, layered_concat,
        ← h.get?_key]
      cases canonical.get? (Identifier.key other) <;> rfl
    · have hne : Identifier.parse? entry.1 ≠ some other := by
        rw [hid, ne_eq, Option.some.injEq]
        exact fun heq => hother heq.symm
      rw [if_neg (Identifier.key_injective.ne hother), if_neg hne, List.append_nil, h.get?_key]

/-- The messages determine what is under canonical keys. -/
theorem eq {messages canonical canonical' : Fields} (h : IsCanonical messages canonical)
    (h' : IsCanonical messages canonical') : canonical = canonical' := by
  refine Keyed.eq_of_get?_eq h.ordered h'.ordered fun key => ?_
  -- No other keys are there.
  by_cases hkey : ∃ id, key = Identifier.key id
  · obtain ⟨id, rfl⟩ := hkey
    rw [h.get?_key, h'.get?_key]
  · have habsent : canonical.get? key = none :=
      Keyed.get?_eq_none_iff.mpr fun hmem => hkey (h.keys key hmem)
    have habsent' : canonical'.get? key = none :=
      Keyed.get?_eq_none_iff.mpr fun hmem => hkey (h'.keys key hmem)
    rw [habsent, habsent']

end IsCanonical

theorem isCanonical_of_foldlM {messages canonical : Fields}
    (h : messages.foldlM addCanonical [] = .ok canonical) : IsCanonical messages canonical := by
  induction messages using List.reverseRecOn generalizing canonical with
  | nil =>
    cases h
    exact ⟨fun _ hmem => absurd hmem List.not_mem_nil, Keyed.ordered_nil,
      fun _ hmem => absurd hmem List.not_mem_nil, fun _ => rfl⟩
  | append_singleton rest entry ih =>
    rw [List.foldlM_append] at h
    obtain ⟨below, hbelow, h⟩ := Except.bind_eq_ok_iff.mp h
    rw [List.foldlM_cons] at h
    obtain ⟨above, habove, h⟩ := Except.bind_eq_ok_iff.mp h
    cases h
    unfold addCanonical at habove
    split at habove
    · cases habove
    · next id hid =>
      cases habove
      exact (ih hbelow).concat (identify_eq_ok_iff.mp hid)

theorem exists_foldlM_addCanonical {messages : Fields} (start : Fields)
    (h : ∀ entry ∈ messages, ∃ id, Identifier.parse? entry.1 = some id) :
    ∃ canonical, messages.foldlM addCanonical start = .ok canonical := by
  induction messages generalizing start with
  | nil => exact ⟨start, rfl⟩
  | cons entry rest ih =>
    obtain ⟨⟨id, hid⟩, hrest⟩ := List.forall_mem_cons.mp h
    rw [List.foldlM_cons, addCanonical, identify_eq_ok_iff.mpr hid]
    exact ih _ hrest

/-- Messages are brought under canonical keys exactly when all keys spell identifiers, and what
stands there is determined by the values of the spellings in their order. -/
theorem canonicalKeys_eq_ok_iff {messages canonical : Fields} :
    canonicalKeys messages = .ok canonical ↔ IsCanonical messages canonical := by
  constructor
  · exact isCanonical_of_foldlM
  · intro h
    obtain ⟨canonical', h'⟩ := exists_foldlM_addCanonical [] h.identifiers
    rw [h.eq (isCanonical_of_foldlM h')]
    exact h'

end CanTables
