import CanTables.Proofs.Assembly.Differ
import CanTables.Proofs.Assembly.Keys
import CanTables.Proofs.Order.Sorting

/-!
# CanTables.Proofs.Assembly.Spelling — files that spell identifiers in other ways

The files of a lineage are laid over each other before their keys are brought to one spelling.  So
the layers of one message are stacked by spelling first, in the order of the texts, and only under
one spelling by lineage.

A respelling keeps this order if it keeps the order of the spellings (`SameOrder`).  If it keeps at
least which layer comes to lie over which (`SameStacking`), the layers are merged in the same order,
but perhaps not two by two in the same way; where that does not matter, the messages still come out
the same (`Lineage.Alike.sameMessages_merged`).
-/

namespace CanTables

open Document Value Positions Sorting

/-- The message objects of a file. -/
def Document.Value.messages (v : Value) : Fields :=
  ((v.field? messagesKey).bind Value.fields?).getD []

/-! ## Other spellings -/

/-- No identifier is spelled by two keys. -/
def SpelledOnce (messages : Fields) : Prop := ∀ id, (spelled id messages).length ≤ 1

/-- Two message objects with the same entries but for the spellings of their identifiers. -/
structure Respelled (m m' : Fields) : Prop where
  once : SpelledOnce m
  said : ∀ id, (spelled id m).map Prod.snd = (spelled id m').map Prod.snd
  other : ∀ key, Identifier.parse? key = none → m.get? key = m'.get? key

/-- An identifier spelled in two ways in two versions of one file, and what the file says under
it. -/
structure Respelling where
  old : String
  new : String
  said : Value

/-- How two versions of one file spell an identifier. -/
def respellings (id : UInt32) (v v' : Value) : List Respelling :=
  List.zipWith (fun entry entry' => ⟨entry.1, entry'.1, entry.2⟩) (spelled id v.messages)
    (spelled id v'.messages)

/-- A file says something about an identifier in both versions or in neither. -/
theorem Respelled.spelled_cases {m m' : Fields} (h : Respelled m m') (id : UInt32) :
    spelled id m = [] ∧ spelled id m' = [] ∨
      ∃ k k' v, spelled id m = [(k, v)] ∧ spelled id m' = [(k', v)] := by
  have honce := h.once id
  have hsaid := h.said id
  match hm : spelled id m, honce with
  | [], _ =>
    rw [hm, List.map_nil, eq_comm, List.map_eq_nil_iff] at hsaid
    exact .inl ⟨rfl, hsaid⟩
  | [(k, v)], _ =>
    rw [hm, List.map_singleton, eq_comm, List.map_eq_singleton_iff] at hsaid
    obtain ⟨⟨k', v'⟩, hm', rfl⟩ := hsaid
    exact .inr ⟨k, k', v', rfl, hm'⟩

theorem respellings_object {id : UInt32} {v v' : Value} {m m' : Fields}
    (h : v.field? messagesKey = some (.object m)) (h' : v'.field? messagesKey = some (.object m')) :
    respellings id v v' = List.zipWith (fun entry entry' => ⟨entry.1, entry'.1, entry.2⟩)
      (spelled id m) (spelled id m') := by
  rw [respellings, messages, messages, h, h']
  rfl

/-- A relation between messages holds between respelled files if it holds where nothing is said
about an identifier, and where one thing is said in two spellings. -/
theorem differ_of_respelled {Q : List Respelling → Fields → Fields → Prop} {id : UInt32}
    {v v' : OrderedValue} (h : Differ Respelled v v')
    (none_said : ∀ m m' : OrderedObject, spelled id m = [] → spelled id m' = [] → Q [] m m')
    (one_said : ∀ (m m' : OrderedObject) k k' w, spelled id m = [(k, w)] →
      spelled id m' = [(k', w)] → Q [⟨k, k', w⟩] m m') :
    Differ (Q (respellings id v v').reverse) v v' := by
  refine ⟨h.rest, ?_⟩
  have hmessages := h.messages
  generalize hfield : v.value.field? messagesKey = o at hmessages
  generalize hfield' : v'.value.field? messagesKey = o' at hmessages
  cases hmessages with
  | @objects m m' related =>
    let old : OrderedObject := ⟨m, ordered_field? v.ordered hfield⟩
    let new : OrderedObject := ⟨m', ordered_field? v'.ordered hfield'⟩
    rw [respellings_object hfield hfield']
    refine .objects ?_
    rcases related.spelled_cases id with ⟨hs, hs'⟩ | ⟨k, k', w, hs, hs'⟩
    · rw [hs, hs']
      exact none_said old new hs hs'
    · rw [hs, hs']
      exact one_said old new k k' w hs hs'
  | same hnot => exact .same hnot

/-! ## Conditions on respellings -/

/-- The new spellings come in the order of the old ones. -/
def SameOrder (rs : List Respelling) : Prop :=
  ∀ r ∈ rs, ∀ s ∈ rs, r.old < s.old ↔ r.new < s.new

/-- The new spellings bring the same files to lie under files below them, the uppermost file
first. -/
def SameStacking (rs : List Respelling) : Prop :=
  rs.Pairwise fun upper lower => upper.old < lower.old ↔ upper.new < lower.new

/-- The layers come to lie over each other as before. -/
def KeepsLayers (rs : List Respelling) : Prop :=
  SameOrder rs ∨ SameStacking rs ∧ Settled (rs.map Respelling.said)

section Spelled

variable {m : OrderedObject} {id : UInt32} {key : String}

theorem get?_of_spelled (hid : Identifier.parse? key = some id) {v : Value} :
    m.fields.get? key = some v ↔ (key, v) ∈ spelled id m := by
  rw [m.keys_ordered.get?_eq_some_iff, mem_spelled_iff]
  exact ⟨fun hmem => ⟨hmem, hid⟩, And.left⟩

/-- What stands under the spellings of an identifier that has none. -/
theorem get?_of_spelled_nil (h : spelled id m = []) (hid : Identifier.parse? key = some id) :
    m.fields.get? key = none := by
  rw [Option.eq_none_iff_forall_ne_some]
  intro v hv
  rw [get?_of_spelled hid, h] at hv
  cases hv

/-- What stands under the spellings of an identifier that has one. -/
theorem get?_of_spelled_singleton {k : String} {w : Value} (h : spelled id m = [(k, w)])
    (hid : Identifier.parse? key = some id) :
    m.fields.get? key = if key = k then some w else none := by
  split
  · next hk =>
    rw [get?_of_spelled hid, h, hk]
    exact List.mem_singleton_self _
  · next hk =>
    rw [Option.eq_none_iff_forall_ne_some]
    intro v hv
    rw [get?_of_spelled hid, h, List.mem_singleton] at hv
    exact hk (congrArg Prod.fst hv)

end Spelled

/-! ## The order of the spellings is kept -/

/-- Two message objects have the same under spellings that correspond. -/
structure MatchedAt (id : UInt32) (rs : List Respelling) (m m' : Fields) : Prop where
  same : ∀ r ∈ rs, m.get? r.old = m'.get? r.new
  old : ∀ key ∈ m.keys, Identifier.parse? key = some id → ∃ r ∈ rs, r.old = key
  new : ∀ key ∈ m'.keys, Identifier.parse? key = some id → ∃ r ∈ rs, r.new = key

theorem MatchedAt.merge {id : UInt32} {rs : List Respelling} {m m' n n' : OrderedObject}
    (h : MatchedAt id rs m m') (h' : MatchedAt id rs n n') :
    MatchedAt id rs (overlayFields m n) (overlayFields m' n') where
  same := by
    intro r hr
    rw [get?_overlayFields, get?_overlayFields, h.same r hr, h'.same r hr]
  old := by
    intro key hkey hid
    rcases (mem_keys_overlayFields m n).mp hkey with hkey | hkey
    · exact h.old key hkey hid
    · exact h'.old key hkey hid
  new := by
    intro key hkey hid
    rcases (mem_keys_overlayFields m' n').mp hkey with hkey | hkey
    · exact h.new key hkey hid
    · exact h'.new key hkey hid

/-- Spellings correspond in one way only, if their order is kept. -/
theorem SameOrder.old_eq_iff {rs : List Respelling} (h : SameOrder rs) {r s : Respelling}
    (hr : r ∈ rs) (hs : s ∈ rs) : r.old = s.old ↔ r.new = s.new := by
  have hlt := h r hr s hs
  have hgt := h s hs r hr
  constructor
  · intro heq
    rw [heq] at hlt hgt
    have hnlt : ¬ r.new < s.new := fun hnew => Std.lt_irrefl (hlt.mpr hnew)
    have hngt : ¬ s.new < r.new := fun hnew => Std.lt_irrefl (hgt.mpr hnew)
    exact (Std.lt_trichotomy _ _).resolve_left hnlt |>.resolve_right hngt
  · intro heq
    rw [heq] at hlt hgt
    have hnlt : ¬ r.old < s.old := fun hold => Std.lt_irrefl (hlt.mp hold)
    have hngt : ¬ s.old < r.old := fun hold => Std.lt_irrefl (hgt.mp hold)
    exact (Std.lt_trichotomy _ _).resolve_left hnlt |>.resolve_right hngt

theorem MatchedAt.of_nil {id : UInt32} {rs : List Respelling}
    (olds : ∀ r ∈ rs, Identifier.parse? r.old = some id)
    (news : ∀ r ∈ rs, Identifier.parse? r.new = some id) {m m' : OrderedObject}
    (h : spelled id m = []) (h' : spelled id m' = []) : MatchedAt id rs m m' where
  same := by
    intro r hr
    rw [get?_of_spelled_nil h (olds r hr), get?_of_spelled_nil h' (news r hr)]
  old := by
    intro key hkey hid
    exact absurd hkey (Keyed.get?_eq_none_iff.mp (get?_of_spelled_nil h hid))
  new := by
    intro key hkey hid
    exact absurd hkey (Keyed.get?_eq_none_iff.mp (get?_of_spelled_nil h' hid))

theorem MatchedAt.of_singleton {id : UInt32} {rs : List Respelling} (order : SameOrder rs)
    (olds : ∀ r ∈ rs, Identifier.parse? r.old = some id)
    (news : ∀ r ∈ rs, Identifier.parse? r.new = some id) {m m' : OrderedObject} {k k' : String}
    {w : Value} (h : spelled id m = [(k, w)]) (h' : spelled id m' = [(k', w)])
    (hmem : ⟨k, k', w⟩ ∈ rs) : MatchedAt id rs m m' where
  same := by
    intro r hr
    have hiff : r.old = k ↔ r.new = k' := order.old_eq_iff hr hmem
    rw [get?_of_spelled_singleton h (olds r hr), get?_of_spelled_singleton h' (news r hr),
      if_congr hiff rfl rfl]
  old := by
    intro key hkey hid
    rw [← Keyed.isSome_get?_iff, get?_of_spelled_singleton h hid] at hkey
    split at hkey
    · next heq => exact ⟨_, hmem, heq.symm⟩
    · cases hkey
  new := by
    intro key hkey hid
    rw [← Keyed.isSome_get?_iff, get?_of_spelled_singleton h' hid] at hkey
    split at hkey
    · next heq => exact ⟨_, hmem, heq.symm⟩
    · cases hkey

/-- The values of the spellings of an identifier come in the same order. -/
theorem MatchedAt.spelled_eq {id : UInt32} {rs : List Respelling} (order : SameOrder rs)
    (olds : ∀ r ∈ rs, Identifier.parse? r.old = some id)
    (news : ∀ r ∈ rs, Identifier.parse? r.new = some id) {m m' : OrderedObject}
    (h : MatchedAt id rs m m') :
    (spelled id m).map Prod.snd = (spelled id m').map Prod.snd := by
  -- The entries under the new spellings are those under the old ones, renamed.
  let rename : String → String := fun key =>
    ((rs.find? fun r => r.old = key).map Respelling.new).getD key
  have hrename : ∀ r ∈ rs, rename r.old = r.new := by
    intro r hr
    obtain ⟨s, hs⟩ := Option.isSome_iff_exists.mp
      (List.find?_isSome (p := fun s : Respelling => s.old = r.old) |>.mpr ⟨r, hr, by simp⟩)
    have hold : s.old = r.old := by simpa using List.find?_some hs
    show ((rs.find? fun s => s.old = r.old).map Respelling.new).getD r.old = r.new
    rw [hs]
    exact (order.old_eq_iff (List.mem_of_find?_eq_some hs) hr).mp hold
  have hfind : ∀ entry ∈ spelled id m, ∃ r ∈ rs, r.old = entry.1 := by
    intro entry hentry
    obtain ⟨hmem, hid⟩ := mem_spelled_iff.mp hentry
    exact h.old entry.1 (Keyed.mem_keys_of_mem hmem) hid
  have heq : (spelled id m).map (fun entry => (rename entry.1, entry.2)) = spelled id m' := by
    refine Keyed.eq_of_mem_iff ?_ (spelled_ordered m'.entries id) ?_
    · refine List.pairwise_map.mpr ((spelled_ordered m.entries id).imp_of_mem ?_)
      intro entry other hentry hother hlt
      obtain ⟨r, hr, hrold⟩ := hfind entry hentry
      obtain ⟨s, hs, hsold⟩ := hfind other hother
      rw [← hrold, ← hsold] at hlt ⊢
      rw [hrename r hr, hrename s hs]
      exact (order r hr s hs).mp hlt
    · rintro ⟨key, v⟩
      rw [List.mem_map]
      constructor
      · rintro ⟨entry, hentry, heq⟩
        cases heq
        obtain ⟨r, hr, hrold⟩ := hfind entry hentry
        have hget := m.keys_ordered.get?_eq_some_iff.mpr (mem_spelled_iff.mp hentry).1
        rw [← hrold, h.same r hr] at hget
        rw [← hrold, hrename r hr]
        exact mem_spelled_iff.mpr ⟨Keyed.mem_of_get?_eq_some hget, news r hr⟩
      · intro hentry
        obtain ⟨hmem, hid⟩ := mem_spelled_iff.mp hentry
        obtain ⟨r, hr, hnew⟩ := h.new key (Keyed.mem_keys_of_mem hmem) hid
        have hget := m'.keys_ordered.get?_eq_some_iff.mpr hmem
        have hsame := h.same r hr
        rw [hnew, hget] at hsame
        refine ⟨(r.old, v), mem_spelled_iff.mpr ⟨Keyed.mem_of_get?_eq_some hsame, olds r hr⟩, ?_⟩
        rw [hrename r hr, hnew]
  rw [← heq, List.map_map]
  rfl

/-! ## Only the stacking is kept -/

/-- Under each spelling stands what is said under it, the lowest first, piled up. -/
structure PiledAt (id : UInt32) (rs : List Respelling) (m m' : Fields) : Prop where
  old : ∀ key, Identifier.parse? key = some id →
    Piles ((rs.filter fun r => r.old = key).map Respelling.said) (m.get? key)
  new : ∀ key, Identifier.parse? key = some id →
    Piles ((rs.filter fun r => r.new = key).map Respelling.said) (m'.get? key)

theorem PiledAt.merge {id : UInt32} {rs rs' : List Respelling} {m m' n n' : OrderedObject}
    (h : PiledAt id rs m m') (h' : PiledAt id rs' n n') :
    PiledAt id (rs ++ rs') (overlayFields m n) (overlayFields m' n') where
  old := by
    intro key hid
    rw [List.filter_append, List.map_append, get?_overlayFields]
    exact (h.old key hid).merge (h'.old key hid)
  new := by
    intro key hid
    rw [List.filter_append, List.map_append, get?_overlayFields]
    exact (h.new key hid).merge (h'.new key hid)

theorem PiledAt.of_nil {id : UInt32} {m m' : OrderedObject} (h : spelled id m = [])
    (h' : spelled id m' = []) : PiledAt id [] m m' where
  old := by
    intro key hid
    rw [get?_of_spelled_nil h hid]
    rfl
  new := by
    intro key hid
    rw [get?_of_spelled_nil h' hid]
    rfl

theorem piles_singleton (spelling : Respelling → String) (r : Respelling) (key : String) :
    Piles (([r].filter fun s => spelling s = key).map Respelling.said)
      (if key = spelling r then some r.said else none) := by
  by_cases hkey : key = spelling r
  · subst hkey
    rw [if_pos rfl, List.filter_cons_of_pos (by simp)]
    exact Pile.single r.said
  · have hne : ¬ spelling r = key := fun heq => hkey heq.symm
    rw [if_neg hkey, List.filter_cons_of_neg (by simpa using hne)]
    rfl

theorem PiledAt.of_singleton {id : UInt32} {m m' : OrderedObject} {k k' : String} {w : Value}
    (h : spelled id m = [(k, w)]) (h' : spelled id m' = [(k', w)]) :
    PiledAt id [⟨k, k', w⟩] m m' where
  old := by
    intro key hid
    rw [get?_of_spelled_singleton h hid]
    exact piles_singleton Respelling.old ⟨k, k', w⟩ key
  new := by
    intro key hid
    rw [get?_of_spelled_singleton h' hid]
    exact piles_singleton Respelling.new ⟨k, k', w⟩ key

/-- What is said under the spellings of an identifier, if it is objects, is piled up in the order of
the spellings, and under one spelling from the lowest. -/
theorem piles_spelled {id : UInt32} {rs : List Respelling} {spelling : Respelling → String}
    (spells : ∀ r ∈ rs, Identifier.parse? (spelling r) = some id)
    (objects : ∀ v ∈ rs.map Respelling.said, v.IsObject) {m : OrderedObject}
    (h : ∀ key, Identifier.parse? key = some id →
      Piles ((rs.filter fun r => spelling r = key).map Respelling.said) (m.fields.get? key)) :
    Piles ((sortBy (byKey spelling) rs).map Respelling.said)
      (layered ((spelled id m).map Prod.snd)) := by
  have hordered := spelled_ordered m.entries id
  -- Under every spelling something is said, so it is a key.
  have hcovers : ∀ r ∈ rs, spelling r ∈ Keyed.keys (spelled id m) := by
    intro r hr
    have hpiles := h (spelling r) (spells r hr)
    cases hget : m.fields.get? (spelling r) with
    | none =>
      rw [hget] at hpiles
      have hempty := List.map_eq_nil_iff.mp hpiles
      rw [List.filter_eq_nil_iff] at hempty
      exact absurd (decide_eq_true rfl) (hempty r hr)
    | some v =>
      exact Keyed.mem_keys_of_mem (mem_spelled_iff.mpr
        ⟨Keyed.mem_of_get?_eq_some hget, spells r hr⟩ : (spelling r, v) ∈ spelled id m)
  -- The value under a key is a pile of what is said under it.
  have hgroups : List.Forall₂ Pile ((Keyed.keys (spelled id m)).map fun key =>
      (rs.filter fun r => spelling r = key).map Respelling.said)
      ((spelled id m).map Prod.snd) := by
    rw [Keyed.keys, List.map_map, List.forall₂_map_left_iff, List.forall₂_map_right_iff,
      List.forall₂_same]
    intro entry hentry
    obtain ⟨hmem, hid⟩ := mem_spelled_iff.mp hentry
    have hpiles := h entry.1 hid
    rw [m.keys_ordered.get?_eq_some_iff.mpr hmem] at hpiles
    exact hpiles
  have hobjects : ∀ v ∈ (spelled id m).map Prod.snd, v.IsObject := by
    intro v hv
    obtain ⟨group, hgroup, hpile⟩ := exists_left_of_forall₂ hgroups hv
    obtain ⟨key, -, rfl⟩ := List.mem_map.mp hgroup
    refine hpile.isObject fun w hw => objects w ?_
    obtain ⟨r, hr, rfl⟩ := List.mem_map.mp hw
    exact List.mem_map_of_mem (List.mem_of_mem_filter hr)
  have hpiles := piles_layered hgroups hobjects
  rw [sortBy_eq_flatMap spelling (Keyed.ordered_iff_keys.mp hordered) hcovers, List.map_flatMap]
  exact hpiles

/-- The spellings of an identifier make up the same if the stacking is kept. -/
theorem PiledAt.layered_eq {id : UInt32} {rs : List Respelling}
    (stacking : rs.Pairwise fun lower upper => upper.old < lower.old ↔ upper.new < lower.new)
    (settled : Settled (rs.map Respelling.said))
    (olds : ∀ r ∈ rs, Identifier.parse? r.old = some id)
    (news : ∀ r ∈ rs, Identifier.parse? r.new = some id) {m m' : OrderedObject}
    (h : PiledAt id rs m m') :
    layered ((spelled id m).map Prod.snd) = layered ((spelled id m').map Prod.snd) := by
  have hold := piles_spelled olds settled.objects h.old
  have hnew := piles_spelled news settled.objects h.new
  -- The stacking is all that sorting looks at.
  have hsort : sortBy (byKey Respelling.old) rs = sortBy (byKey Respelling.new) rs := by
    refine sortBy_congr (stacking.imp fun hstack => ?_)
    rw [byKey, byKey, decide_eq_decide.mpr hstack]
  rw [← hsort] at hnew
  have hpart : List.Subperm ((sortBy (byKey Respelling.old) rs).map Respelling.said)
      (rs.map Respelling.said) := ((sortBy_perm _ rs).map _).subperm
  generalize layered ((spelled id m).map Prod.snd) = o at hold
  generalize layered ((spelled id m').map Prod.snd) = o' at hnew
  cases o with
  | none =>
    rw [eq_comm]
    exact hnew.eq_none_iff.mpr hold
  | some v =>
    cases o' with
    | none => exact absurd hnew (Pile.ne_nil hold)
    | some w => rw [settled.unique _ v w hpart hold hnew]

/-! ## What lineages make up -/

/-- Two message objects that come out the same under canonical keys. -/
structure SameMessages (m m' : Fields) : Prop where
  said : ∀ id, layered ((spelled id m).map Prod.snd) = layered ((spelled id m').map Prod.snd)
  other : ∀ key, Identifier.parse? key = none → m.get? key = m'.get? key

theorem SameMessages.symm {m m' : Fields} (h : SameMessages m m') : SameMessages m' m :=
  ⟨fun id => (h.said id).symm, fun key hkey => (h.other key hkey).symm⟩

theorem SameMessages.isCanonical {m m' canonical : Fields} (h : SameMessages m m')
    (hcanonical : IsCanonical m canonical) : IsCanonical m' canonical where
  identifiers := by
    intro entry hmem
    by_contra hnone
    have hkey : Identifier.parse? entry.1 = none := by
      rw [Option.eq_none_iff_forall_ne_some]
      exact fun id hid => hnone ⟨id, hid⟩
    have hsome := Keyed.isSome_get?_iff.mpr (Keyed.mem_keys_of_mem hmem)
    rw [← h.other _ hkey, Keyed.isSome_get?_iff] at hsome
    obtain ⟨other, hother, heq⟩ := List.mem_map.mp hsome
    obtain ⟨id, hid⟩ := hcanonical.identifiers other hother
    rw [heq, hkey] at hid
    cases hid
  ordered := hcanonical.ordered
  keys := hcanonical.keys
  get?_key := fun id => (hcanonical.get?_key id).trans (h.said id)

theorem SameMessages.canonicalKeys_iff {m m' : Fields} (h : SameMessages m m')
    {canonical : Fields} :
    canonicalKeys m = .ok canonical ↔ canonicalKeys m' = .ok canonical := by
  rw [canonicalKeys_eq_ok_iff, canonicalKeys_eq_ok_iff]
  exact ⟨h.isCanonical, h.symm.isCanonical⟩

theorem mem_spelled_of_mem_respellings {id : UInt32} {v v' : Value} {r : Respelling}
    (h : r ∈ respellings id v v') :
    (∃ x, (r.old, x) ∈ spelled id v.messages) ∧ ∃ x, (r.new, x) ∈ spelled id v'.messages := by
  rw [respellings, ← List.map_uncurry_zip_eq_zipWith] at h
  obtain ⟨⟨entry, entry'⟩, hmem, rfl⟩ := List.mem_map.mp h
  obtain ⟨hentry, hentry'⟩ := List.of_mem_zip hmem
  exact ⟨⟨_, hentry⟩, ⟨_, hentry'⟩⟩

theorem parse?_of_mem_respellings {id : UInt32} {v v' : Value} {r : Respelling}
    (h : r ∈ respellings id v v') :
    Identifier.parse? r.old = some id ∧ Identifier.parse? r.new = some id := by
  obtain ⟨⟨x, hold⟩, x', hnew⟩ := mem_spelled_of_mem_respellings h
  exact ⟨(mem_spelled_iff.mp hold).2, (mem_spelled_iff.mp hnew).2⟩

namespace Lineage

/-- How two versions of a lineage spell an identifier, a child before its parents. -/
def respellings (id : UInt32) (lineage lineage' : Lineage) : List Respelling :=
  along (CanTables.respellings id) lineage lineage'

theorem parse?_of_mem_respellings {id : UInt32} {lineage lineage' : Lineage} {r : Respelling}
    (h : r ∈ respellings id lineage lineage') :
    Identifier.parse? r.old = some id ∧ Identifier.parse? r.new = some id := by
  obtain ⟨pair, -, hr⟩ := List.mem_flatMap.mp h
  exact CanTables.parse?_of_mem_respellings hr

namespace Alike

variable {l l' : OrderedLineage}

theorem other_merged (h : Alike (Differ Respelled) l.lineage l'.lineage) :
    Differ (fun m m' => ∀ key, Identifier.parse? key = none → m.get? key = m'.get? key)
      l.merged l'.merged := by
  have survives : Survives fun (_ : List Unit) (m m' : Fields) =>
      ∀ key, Identifier.parse? key = none → m.get? key = m'.get? key :=
    { fewer := fun _ => id
      both := by
        intro _ _ m m' n n' hlower hupper key hkey
        rw [get?_overlayFields, get?_overlayFields, hlower key hkey, hupper key hkey] }
  exact h.differ_merged (f := fun _ _ => []) survives
    fun hfile => hfile.imp fun _ _ => Respelled.other

/-- An identifier whose spellings keep their order comes out the same. -/
theorem layered_merged_of_order {id : UInt32} (h : Alike (Differ Respelled) l.lineage l'.lineage)
    (order : SameOrder (respellings id l l')) :
    Differ (fun m m' => layered ((spelled id m).map Prod.snd) =
      layered ((spelled id m').map Prod.snd)) l.merged l'.merged := by
  have olds := fun r (hr : r ∈ respellings id l l') => (parse?_of_mem_respellings hr).1
  have news := fun r (hr : r ∈ respellings id l l') => (parse?_of_mem_respellings hr).2
  -- What files give is collected only to know that all of it is among the respellings.
  generalize hrs : respellings id l l' = rs at order olds news
  have survives : Survives fun (xs : List Respelling) (m m' : Fields) =>
      (∀ r ∈ xs, r ∈ rs) → MatchedAt id rs m m' :=
    { fewer := fun hsub hmatch hmem => hmatch fun r hr => hmem r (hsub.subset hr)
      both := by
        intro xs ys m m' n n' hlower hupper hmem
        have hmatch := hlower fun r hr => hmem r (List.mem_append_left _ hr)
        exact hmatch.merge (hupper fun r hr => hmem r (List.mem_append_right _ hr)) }
  refine (h.differ_merged (f := CanTables.respellings id) survives ?_).imp_of_ordered ?_
  · intro v v' hfile
    refine differ_of_respelled (Q := fun xs m m' => (∀ r ∈ xs, r ∈ rs) → MatchedAt id rs m m')
      hfile ?_ ?_
    · exact fun m m' hs hs' _ => .of_nil olds news hs hs'
    · intro m m' k k' w hs hs' hmem
      exact .of_singleton order olds news hs hs' (hmem _ List.mem_cons_self)
  · intro m m' hmatch
    have hmem : ∀ r ∈ (along (CanTables.respellings id) l l').reverse, r ∈ rs := by
      intro r hr
      rw [← hrs]
      exact List.mem_reverse.mp hr
    rw [(hmatch hmem).spelled_eq order olds news]

/-- An identifier whose layers keep lying over each other comes out the same. -/
theorem layered_merged_of_stacking {id : UInt32}
    (h : Alike (Differ Respelled) l.lineage l'.lineage)
    (stacking : SameStacking (respellings id l l'))
    (settled : Settled ((respellings id l l').map Respelling.said)) :
    Differ (fun m m' => layered ((spelled id m).map Prod.snd) =
      layered ((spelled id m').map Prod.snd)) l.merged l'.merged := by
  -- A file whose messages are no object hides the files below it, so a part is piled up.
  have survives : Survives fun (xs : List Respelling) (m m' : Fields) =>
      ∃ part, List.Sublist part xs ∧ PiledAt id part m m' :=
    { fewer := fun hsub ⟨part, hpart, hpiled⟩ => ⟨part, hpart.trans hsub, hpiled⟩
      both := by
        rintro xs ys m m' n n' ⟨part, hpart, hlower⟩ ⟨part', hpart', hupper⟩
        exact ⟨part ++ part', hpart.append hpart', hlower.merge hupper⟩ }
  refine (h.differ_merged (f := CanTables.respellings id) survives ?_).imp_of_ordered ?_
  · intro v v' hfile
    refine differ_of_respelled (Q := fun xs m m' =>
      ∃ part, List.Sublist part xs ∧ PiledAt id part m m') hfile ?_ ?_
    · exact fun m m' hs hs' => ⟨[], List.Sublist.refl _, .of_nil hs hs'⟩
    · exact fun m m' k k' w hs hs' => ⟨_, List.Sublist.refl _, .of_singleton hs hs'⟩
  · rintro m m' ⟨part, hpart, hpiled⟩
    have hmem : ∀ r ∈ part, r ∈ respellings id l l' := fun r hr =>
      List.mem_reverse.mp (hpart.subset hr)
    refine hpiled.layered_eq ?_ ?_ (fun r hr => (parse?_of_mem_respellings (hmem r hr)).1)
      (fun r hr => (parse?_of_mem_respellings (hmem r hr)).2)
    · exact (List.pairwise_reverse.mpr stacking).sublist hpart
    · refine settled.of_subperm ((hpart.map _).subperm.trans ?_)
      exact ((List.reverse_perm _).map _).subperm

/-- Two versions of a lineage make up the same messages if the layers of every identifier come to
lie over each other as before. -/
theorem sameMessages_merged (h : Alike (Differ Respelled) l.lineage l'.lineage)
    (layers : ∀ id, KeepsLayers (respellings id l l')) :
    Differ SameMessages l.merged l'.merged := by
  have hsaid : ∀ id, Differ (fun m m' => layered ((spelled id m).map Prod.snd) =
      layered ((spelled id m').map Prod.snd)) l.merged l'.merged := by
    intro id
    rcases layers id with order | ⟨stacking, settled⟩
    · exact h.layered_merged_of_order order
    · exact h.layered_merged_of_stacking stacking settled
  exact ((Differ.forall_of hsaid).and h.other_merged).imp fun _ _ hboth => ⟨hboth.1, hboth.2⟩

end Alike

end Lineage

end CanTables
