import CanTables.Proofs.Assembly.Keys

/-!
# CanTables.Proofs.Assembly.Canonical — bringing keys to one spelling

A `messages` object whose keys are identifiers has one entry for each identifier afterwards, made of
the values of all its spellings: the one with the smallest key at the bottom, the others on top of it
in the order of their keys (`Canonicalizes`).  Where a key is no identifier there is no result, and
the fault shows the smallest such key (`IsFirstStray`).

Canonical keys are canonical spellings, so bringing keys to one spelling a second time changes
nothing (`IsCanonical.self`).
-/

namespace CanTables

open Document Value

/-! ## What is said about the result -/

/-- Values on top of each other, the first one at the bottom. -/
def stacked : List Value → Option Value
  | [] => none
  | bottom :: above => some (above.foldl overlay bottom)

/-- The entries of an identifier, in key order. -/
structure AreSpellings (id : UInt32) (messages spellings : Fields) : Prop where
  ordered : spellings.Ordered
  mem_iff : ∀ entry, entry ∈ spellings ↔
    entry ∈ messages ∧ Identifier.parse? entry.1 = some id

/-- Messages have been brought under canonical keys. -/
structure Canonicalizes (messages canonical : Fields) : Prop where
  /-- Every key is there once. -/
  ordered : canonical.Ordered
  /-- The keys are the canonical ones of the identifiers that the messages' keys spell. -/
  mem_keys_iff : ∀ key, key ∈ canonical.keys ↔
    ∃ spelling ∈ messages.keys, ∃ id, Identifier.parse? spelling = some id ∧ key = Identifier.key id
  /-- Under the key of an identifier the values of its spellings lie on top of each other. -/
  get?_key : ∀ id, ∃ spellings, AreSpellings id messages spellings ∧
    canonical.get? (Identifier.key id) = stacked (spellings.map Prod.snd)

/-- A key is the smallest one that spells no identifier. -/
structure IsFirstStray (messages : Fields) (key : String) : Prop where
  mem : key ∈ messages.keys
  stray : Identifier.parse? key = none
  le : ∀ other ∈ messages.keys, Identifier.parse? other = none → key ≤ other

/-! ## Layers -/

theorem foldl_some_overlay (bottom : Value) (above : List Value) :
    above.foldl (fun below upper => some (below.elim upper (overlay · upper))) (some bottom) =
      some (above.foldl overlay bottom) := by
  induction above generalizing bottom with
  | nil => rfl
  | cons next rest ih => exact ih (overlay bottom next)

theorem layered_eq_stacked (values : List Value) : layered values = stacked values := by
  cases values with
  | nil => rfl
  | cons bottom above => exact foldl_some_overlay bottom above

theorem isSome_layered {values : List Value} (h : values ≠ []) : (layered values).isSome := by
  obtain ⟨bottom, above, rfl⟩ := List.exists_cons_of_ne_nil h
  rw [layered_eq_stacked]
  rfl

/-! ## A second time -/

namespace IsCanonical

variable {messages canonical : Fields}

theorem exists_id (h : IsCanonical messages canonical) {entry : String × Value}
    (hentry : entry ∈ canonical) : ∃ id, entry.1 = Identifier.key id :=
  h.keys entry.1 (Keyed.mem_keys_of_mem hentry)

/-- An identifier has one spelling among canonical keys. -/
theorem mem_spelled_iff (h : IsCanonical messages canonical) {id : UInt32}
    {entry : String × Value} :
    entry ∈ spelled id canonical ↔ entry ∈ canonical ∧ entry.1 = Identifier.key id := by
  rw [CanTables.mem_spelled_iff]
  refine and_congr_right fun hentry => ?_
  obtain ⟨other, hother⟩ := h.exists_id hentry
  rw [hother, Identifier.parse?_key, Option.some.injEq, Identifier.key_injective.eq_iff]

theorem spelled_eq (h : IsCanonical messages canonical) (id : UInt32) :
    spelled id canonical =
      ((canonical.get? (Identifier.key id)).map fun v => (Identifier.key id, v)).toList := by
  refine Keyed.eq_of_mem_iff (spelled_ordered ⟨_, h.ordered⟩ id) ?_ fun entry => ?_
  · cases canonical.get? (Identifier.key id) with
    | none => exact Keyed.ordered_nil
    | some v => exact List.pairwise_singleton _ _
  · rw [h.mem_spelled_iff, Option.mem_toList, Option.map_eq_some_iff]
    constructor
    · rintro ⟨hentry, hkey⟩
      exact ⟨entry.2, h.ordered.get?_eq_some_iff.mpr (hkey ▸ hentry), by rw [← hkey]⟩
    · rintro ⟨v, hv, rfl⟩
      exact ⟨h.ordered.get?_eq_some_iff.mp hv, rfl⟩

/-- What is under canonical keys stays as it is. -/
theorem self (h : IsCanonical messages canonical) : IsCanonical canonical canonical where
  identifiers entry hentry := by
    obtain ⟨id, hid⟩ := h.exists_id hentry
    exact ⟨id, hid ▸ Identifier.parse?_key id⟩
  ordered := h.ordered
  keys := h.keys
  get?_key id := by
    rw [h.spelled_eq id]
    cases canonical.get? (Identifier.key id) <;> rfl

/-- A canonical key is there exactly if it is that of an identifier with a spelling. -/
theorem mem_keys_iff (h : IsCanonical messages canonical) {key : String} :
    key ∈ canonical.keys ↔ ∃ spelling ∈ messages.keys, ∃ id,
      Identifier.parse? spelling = some id ∧ key = Identifier.key id := by
  constructor
  · intro hkey
    obtain ⟨id, rfl⟩ := h.keys key hkey
    -- Something lies under the key, so some value was put there.
    have hne : spelled id messages ≠ [] := by
      intro hnil
      rw [← Keyed.isSome_get?_iff, h.get?_key, hnil] at hkey
      cases hkey
    obtain ⟨entry, hentry⟩ := List.exists_mem_of_ne_nil _ hne
    obtain ⟨hmem, hid⟩ := CanTables.mem_spelled_iff.mp hentry
    exact ⟨entry.1, Keyed.mem_keys_of_mem hmem, id, hid, rfl⟩
  · rintro ⟨spelling, hspelling, id, hid, rfl⟩
    obtain ⟨entry, hentry, rfl⟩ := List.mem_map.mp hspelling
    rw [← Keyed.isSome_get?_iff, h.get?_key]
    refine isSome_layered (List.ne_nil_of_mem (a := entry.2) (List.mem_map_of_mem ?_))
    exact CanTables.mem_spelled_iff.mpr ⟨hentry, hid⟩

theorem canonicalizes {messages : OrderedKeyed String Value} (h : IsCanonical messages canonical) :
    Canonicalizes messages canonical where
  ordered := h.ordered
  mem_keys_iff _ := h.mem_keys_iff
  get?_key id := by
    refine ⟨spelled id messages, ⟨spelled_ordered messages id, fun _ => ?_⟩, ?_⟩
    · exact CanTables.mem_spelled_iff
    · rw [h.get?_key, layered_eq_stacked]

end IsCanonical

/-! ## Keys that are no identifiers -/

/-- Keys are looked at one after the other, up to the first that spells no identifier. -/
theorem exists_stray_of_foldlM {messages start : Fields} {fault : Fault}
    (h : messages.foldlM addCanonical start = .error fault) :
    ∃ before entry after, messages = before ++ entry :: after ∧
      (∀ e ∈ before, ∃ id, Identifier.parse? e.1 = some id) ∧
      Identifier.parse? entry.1 = none ∧ fault = .notIdentifier entry.1 := by
  induction messages generalizing start with
  | nil => cases h
  | cons first rest ih =>
    rw [List.foldlM_cons] at h
    cases hfirst : Identifier.parse? first.1 with
    | none =>
      simp only [addCanonical, identify, hfirst] at h
      exact ⟨[], first, rest, rfl, List.forall_mem_nil _, hfirst, (Except.error.inj h).symm⟩
    | some id =>
      simp only [addCanonical, identify, hfirst] at h
      obtain ⟨before, entry, after, rfl, hbefore, hstray, hfault⟩ := ih h
      exact ⟨first :: before, entry, after, rfl, List.forall_mem_cons.mpr ⟨⟨id, hfirst⟩, hbefore⟩,
        hstray, hfault⟩

theorem isFirstStray_of_split {before after : Fields} {entry : String × Value}
    (ordered : Keyed.Ordered (before ++ entry :: after))
    (hbefore : ∀ e ∈ before, ∃ id, Identifier.parse? e.1 = some id)
    (stray : Identifier.parse? entry.1 = none) :
    IsFirstStray (before ++ entry :: after) entry.1 where
  mem := Keyed.mem_keys_of_mem (List.mem_append_right _ List.mem_cons_self)
  stray := stray
  le := by
    intro other hother hstray
    obtain ⟨e, he, rfl⟩ := List.mem_map.mp hother
    rcases List.mem_append.mp he with he | he
    · obtain ⟨id, hid⟩ := hbefore e he
      cases hstray.symm.trans hid
    · rcases List.mem_cons.mp he with rfl | he
      · exact Std.le_refl _
      · obtain ⟨-, hrest, -⟩ := List.pairwise_append.mp ordered
        exact Std.le_of_lt ((List.pairwise_cons.mp hrest).1 e he)

/-- Bringing the keys of an object to one spelling fails exactly if some key is no identifier, and
the fault shows the smallest of these.  Otherwise there is one canonical key for each identifier that
the keys spell, with the values of its spellings on top of each other in key order, and a second time
changes nothing. -/
theorem canonicalKeys_canonicalizes {messages : Fields} (ordered : messages.Ordered) :
    ((∃ fault, canonicalKeys messages = .error fault) ↔
      ∃ key ∈ messages.keys, Identifier.parse? key = none) ∧
    (∀ fault, canonicalKeys messages = .error fault →
      ∃ key, IsFirstStray messages key ∧ fault = .notIdentifier key) ∧
    ∀ canonical, canonicalKeys messages = .ok canonical →
      Canonicalizes messages canonical ∧ canonicalKeys canonical = .ok canonical := by
  have hfault : ∀ fault, canonicalKeys messages = .error fault →
      ∃ key, IsFirstStray messages key ∧ fault = .notIdentifier key := by
    intro fault h
    obtain ⟨before, entry, after, rfl, hbefore, hstray, rfl⟩ := exists_stray_of_foldlM h
    exact ⟨entry.1, isFirstStray_of_split ordered hbefore hstray, rfl⟩
  refine ⟨⟨?_, ?_⟩, hfault, fun canonical h => ?_⟩
  · rintro ⟨fault, h⟩
    obtain ⟨key, hkey, -⟩ := hfault fault h
    exact ⟨key, hkey.mem, hkey.stray⟩
  · rintro ⟨key, hkey, hstray⟩
    obtain ⟨entry, hentry, rfl⟩ := List.mem_map.mp hkey
    rw [Except.exists_eq_error_iff]
    rintro ⟨canonical, h⟩
    obtain ⟨id, hid⟩ := (canonicalKeys_eq_ok_iff.mp h).identifiers entry hentry
    cases hstray.symm.trans hid
  · have hcanonical := canonicalKeys_eq_ok_iff.mp h
    lift messages to OrderedKeyed String Value using ordered
    exact ⟨hcanonical.canonicalizes, canonicalKeys_eq_ok_iff.mpr hcanonical.self⟩

/-- Two messages under three keys. -/
def aliases : Fields := [
  ("0X100", .object [("enabled", .bool false)]),
  ("0b11", .object []),
  ("256", .object [("name", .text "engine")])]

theorem canonicalKeys_canonicalizes_aliases : ∃ canonical : Fields,
    canonicalKeys aliases = .ok canonical ∧ canonical.keys = ["0x100", "0x3"] ∧
      Canonicalizes aliases canonical ∧ canonicalKeys canonical = .ok canonical := by
  have hany : (canonicalKeys aliases).toOption.any
      (fun canonical => canonical.keys = ["0x100", "0x3"]) = true := by
    decide +kernel
  obtain ⟨canonical, hcanonical, hkeys⟩ := Except.exists_of_any_toOption hany
  have ordered : aliases.Ordered := by
    show List.Pairwise _ _
    decide +kernel
  obtain ⟨-, -, hok⟩ := canonicalKeys_canonicalizes ordered
  obtain ⟨hresult, hagain⟩ := hok canonical hcanonical
  exact ⟨canonical, hcanonical, of_decide_eq_true hkeys, hresult, hagain⟩

end CanTables
