import CanTables.Order.Keyed
import CanTables.Proofs.Order.Positions
import Mathlib.Data.List.Nodup

/-!
# CanTables.Proofs.Order.Keyed — the laws of finite maps in key order

A map in key order is determined by its lookups (`eq_of_get?_eq`), so two ways of building a map are
compared by what they put under each key.  Every operation keeps the order, and `get?_upsert` is the
one equation from which the others follow.

An `OrderedKeyed` is a map together with its order.  What is proved about maps that other parts of
the program build is proved about these, and does not ask for the order any more.
-/

namespace CanTables.Keyed

variable {κ α β : Type}

/-! ## Order and keys -/

theorem mem_keys_of_mem {m : Keyed κ α} {entry : κ × α} (h : entry ∈ m) : entry.1 ∈ m.keys :=
  List.mem_map_of_mem h

section Order

variable [LT κ]

/-- Whether a map is in order depends on its keys only. -/
theorem ordered_iff_keys {m : Keyed κ α} : m.Ordered ↔ m.keys.Pairwise (· < ·) := by
  rw [Ordered, keys, List.pairwise_map]

theorem ordered_nil : Ordered ([] : Keyed κ α) := List.Pairwise.nil

theorem Ordered.tail {entry : κ × α} {m : Keyed κ α} (h : Ordered (entry :: m)) : m.Ordered :=
  (List.pairwise_cons.mp h).2

theorem Ordered.head_lt {k : κ} {v : α} {m : Keyed κ α} (h : Ordered ((k, v) :: m)) {k' : κ}
    (hk : k' ∈ m.keys) : k < k' := by
  obtain ⟨entry, hentry, rfl⟩ := List.mem_map.mp hk
  exact (List.pairwise_cons.mp h).1 entry hentry

/-- A map with the same keys is in order, whatever its values are. -/
theorem Ordered.of_keys_eq {m : Keyed κ α} {m' : Keyed κ β} (h : m.Ordered)
    (same : m'.keys = m.keys) : m'.Ordered := by
  rw [ordered_iff_keys] at h ⊢
  rwa [same]

theorem Ordered.filter {m : Keyed κ α} (h : m.Ordered) (p : κ × α → Bool) :
    Ordered (m.filter p) := List.Pairwise.filter p h

end Order

/-! ## Lookup -/

section Lookup

variable [DecidableEq κ]

theorem get?_eq_none_iff {m : Keyed κ α} {k : κ} : m.get? k = none ↔ k ∉ m.keys := by
  induction m with
  | nil => simp [keys]
  | cons entry rest ih =>
    obtain ⟨k', v⟩ := entry
    rw [get?_cons]
    by_cases hk : k = k'
    · simp [keys, hk]
    · rw [if_neg hk, ih]
      simp [keys, hk]

theorem isSome_get?_iff {m : Keyed κ α} {k : κ} : (m.get? k).isSome ↔ k ∈ m.keys := by
  rw [← not_iff_not, Bool.not_eq_true, Option.isSome_eq_false_iff, Option.isNone_iff_eq_none,
    get?_eq_none_iff]

/-- What is found is an entry. -/
theorem mem_of_get?_eq_some {m : Keyed κ α} {k : κ} {v : α} (h : m.get? k = some v) :
    (k, v) ∈ m := by
  induction m with
  | nil => simp at h
  | cons entry rest ih =>
    obtain ⟨k', v'⟩ := entry
    rw [get?_cons] at h
    split at h
    · next hk =>
      cases h
      simp [hk]
    · exact List.mem_cons_of_mem _ (ih h)

/-- Lookup after dropping other entries. -/
theorem get?_erase (m : Keyed κ α) (k k' : κ) :
    (m.erase k).get? k' = if k' = k then none else m.get? k' := by
  induction m with
  | nil => simp [erase]
  | cons entry rest ih =>
    obtain ⟨key, v⟩ := entry
    simp only [erase, List.filter_cons] at ih ⊢
    by_cases hkey : key = k
    · subst hkey
      simp only [bne_self_eq_false, Bool.false_eq_true, if_false, ih, get?_cons]
      split <;> simp_all
    · simp only [bne_iff_ne, ne_eq, hkey, not_false_eq_true, if_true, get?_cons, ih]
      by_cases hk : k' = key
      · simp [hk, hkey]
      · simp [hk]

omit [DecidableEq κ] in
/-- A map that is listed along another list has some of the keys there. -/
theorem keys_filterMap {γ : Type} (key : γ → κ) (value? : γ → Option α) (l : List γ) :
    (keys (l.filterMap fun c => (value? c).map (Prod.mk (key c)))).Sublist (l.map key) := by
  induction l with
  | nil => exact .slnil
  | cons c rest ih =>
    rw [List.filterMap_cons, List.map_cons]
    cases value? c with
    | none => exact ih.cons _
    | some v => exact ih.cons_cons _

theorem get?_filterMap {γ : Type} {key : γ → κ} {value? : γ → Option α} {l : List γ}
    (distinct : (l.map key).Nodup) {c : γ} (hc : c ∈ l) :
    get? (l.filterMap fun c => (value? c).map (Prod.mk (key c))) (key c) = value? c := by
  induction l with
  | nil => cases hc
  | cons first rest ih =>
    obtain ⟨hfirst, hrest⟩ := List.nodup_cons.mp distinct
    rw [List.filterMap_cons]
    rcases List.mem_cons.mp hc with rfl | hc
    · -- None of the others has the key of the first.
      have habsent : get? (rest.filterMap fun c => (value? c).map (Prod.mk (key c))) (key c) =
          none := get?_eq_none_iff.mpr fun hmem => hfirst ((keys_filterMap key value? rest).mem hmem)
      cases hvalue : value? c with
      | none => exact habsent
      | some v => exact if_pos rfl
    · have hne : key c ≠ key first := by
        intro heq
        exact hfirst (heq ▸ List.mem_map_of_mem hc)
      cases value? first with
      | none => exact ih hrest hc
      | some v => exact (if_neg hne).trans (ih hrest hc)

end Lookup

section Irreflexive

variable [LT κ] [Std.Irrefl (α := κ) (· < ·)]

theorem Ordered.nodup_keys {m : Keyed κ α} (h : m.Ordered) : m.keys.Nodup := by
  refine (ordered_iff_keys.mp h).imp fun hlt heq => ?_
  subst heq
  exact Std.lt_irrefl hlt

/-- In a map in order, an entry is what its key looks up. -/
theorem Ordered.get?_eq_some_iff [DecidableEq κ] {m : Keyed κ α} (h : m.Ordered) {k : κ} {v : α} :
    m.get? k = some v ↔ (k, v) ∈ m := by
  refine ⟨mem_of_get?_eq_some, fun hmem => ?_⟩
  induction m with
  | nil => cases hmem
  | cons entry rest ih =>
    obtain ⟨k', v'⟩ := entry
    rw [get?_cons]
    rcases List.mem_cons.mp hmem with heq | hrest
    · cases heq
      simp
    · have hlt : k' < k := h.head_lt (mem_keys_of_mem hrest)
      have hne : k ≠ k' := by
        rintro rfl
        exact Std.lt_irrefl hlt
      rw [if_neg hne]
      exact ih h.tail hrest

end Irreflexive

/-! ## Changing a value -/

theorem mem_keys_upsert [DecidableEq κ] [LT κ] [DecidableLT κ] {m : Keyed κ α} {k k' : κ}
    {f : Option α → α} :
    k' ∈ (upsert k f m).keys ↔ k' = k ∨ k' ∈ m.keys := by
  induction m with
  | nil => simp [upsert, keys]
  | cons entry rest ih =>
    obtain ⟨key, v⟩ := entry
    simp only [upsert, keys] at ih ⊢
    by_cases hk : k = key
    · simp [hk]
    · rw [if_neg hk]
      split
      · simp
      · simp only [List.map_cons, List.mem_cons, ih]
        tauto

/-- A key that is new is one more key. -/
theorem perm_keys_upsert [DecidableEq κ] [LT κ] [DecidableLT κ] {m : Keyed κ α} {k : κ}
    (new : k ∉ m.keys) (f : Option α → α) : (upsert k f m).keys.Perm (k :: m.keys) := by
  induction m with
  | nil => exact .refl _
  | cons entry rest ih =>
    obtain ⟨key, v⟩ := entry
    obtain ⟨hne, hrest⟩ := List.ne_and_not_mem_of_not_mem_cons new
    rw [upsert, if_neg hne]
    split
    · exact .refl _
    · exact ((ih hrest).cons key).trans (.swap k key _)

section Linear

variable [DecidableEq κ] [LE κ] [LT κ] [Std.IsLinearOrder κ] [Std.LawfulOrderLT κ]

omit [DecidableEq κ] in
/-- A map in order is determined by its entries. -/
theorem eq_of_mem_iff {m m' : Keyed κ α} (h : m.Ordered) (h' : m'.Ordered)
    (same : ∀ entry, entry ∈ m ↔ entry ∈ m') : m = m' := by
  have nodup : m.Nodup := List.Nodup.of_map _ h.nodup_keys
  have nodup' : m'.Nodup := List.Nodup.of_map _ h'.nodup_keys
  have perm : m.Perm m' := (List.perm_ext_iff_of_nodup nodup nodup').mpr same
  refine perm.eq_of_pairwise (fun a b _ _ hab hba => ?_) h h'
  exact absurd (Std.lt_trans hab hba) Std.lt_irrefl

/-- A map in order is determined by its lookups. -/
theorem eq_of_get?_eq {m m' : Keyed κ α} (h : m.Ordered) (h' : m'.Ordered)
    (same : ∀ k, m.get? k = m'.get? k) : m = m' := by
  refine eq_of_mem_iff h h' ?_
  rintro ⟨k, v⟩
  rw [← h.get?_eq_some_iff, ← h'.get?_eq_some_iff, same]

variable [DecidableLT κ]

/-- Putting a value under a key keeps the order. -/
theorem Ordered.upsert {m : Keyed κ α} (h : m.Ordered) (k : κ) (f : Option α → α) :
    (upsert k f m).Ordered := by
  induction m with
  | nil => simp [Keyed.upsert, Ordered]
  | cons entry rest ih =>
    obtain ⟨key, v⟩ := entry
    simp only [Keyed.upsert]
    by_cases hk : k = key
    · rw [if_pos hk]
      exact h.of_keys_eq rfl
    rw [if_neg hk]
    by_cases hlt : k < key
    · rw [if_pos hlt]
      refine List.pairwise_cons.mpr ⟨?_, h⟩
      intro entry' hmem
      rcases List.mem_cons.mp hmem with rfl | hrest
      · exact hlt
      · exact Std.lt_trans hlt (h.head_lt (mem_keys_of_mem hrest))
    · rw [if_neg hlt]
      refine List.pairwise_cons.mpr ⟨?_, ih h.tail⟩
      intro entry' hmem
      rcases mem_keys_upsert.mp (mem_keys_of_mem hmem) with heq | hrest
      · rw [heq]
        exact ((Std.lt_trichotomy k key).resolve_left hlt).resolve_left hk
      · exact h.head_lt hrest

/-- The key that was changed looks up what the change made of its old value. -/
theorem Ordered.get?_upsert_self {m : Keyed κ α} (h : m.Ordered) (k : κ) (f : Option α → α) :
    get? (Keyed.upsert k f m) k = some (f (m.get? k)) := by
  induction m with
  | nil => simp [Keyed.upsert, get?_cons]
  | cons entry rest ih =>
    obtain ⟨key, v⟩ := entry
    simp only [Keyed.upsert]
    by_cases hk : k = key
    · simp [hk, get?_cons]
    rw [if_neg hk]
    by_cases hlt : k < key
    · have hnone : get? ((key, v) :: rest) k = none := by
        rw [get?_eq_none_iff]
        intro hmem
        rcases List.mem_cons.mp hmem with heq | hrest
        · exact hk heq
        · exact Std.lt_irrefl (Std.lt_trans hlt (h.head_lt hrest))
      rw [if_pos hlt, get?_cons, if_pos rfl, hnone]
    · rw [if_neg hlt, get?_cons, get?_cons, if_neg hk, ih h.tail]
      simp [hk]

/-- Lookup after a change under one key. -/
theorem Ordered.get?_upsert {m : Keyed κ α} (h : m.Ordered) (k k' : κ) (f : Option α → α) :
    get? (Keyed.upsert k f m) k' = if k' = k then some (f (m.get? k)) else m.get? k' := by
  split
  · next hk => rw [hk, h.get?_upsert_self]
  · next hk => exact Keyed.get?_upsert_of_ne f hk

theorem Ordered.insert {m : Keyed κ α} (h : m.Ordered) (k : κ) (v : α) :
    (m.insert k v).Ordered := h.upsert k _

theorem Ordered.get?_insert {m : Keyed κ α} (h : m.Ordered) (k k' : κ) (v : α) :
    (m.insert k v).get? k' = if k' = k then some v else m.get? k' := h.get?_upsert k k' _

theorem Ordered.insertIfNew {m : Keyed κ α} (h : m.Ordered) (k : κ) (v : α) :
    (m.insertIfNew k v).Ordered := h.upsert k _

/-- A value that is put where there is none yet replaces nothing. -/
theorem Ordered.get?_insertIfNew {m : Keyed κ α} (h : m.Ordered) (k k' : κ) (v : α) :
    (m.insertIfNew k v).get? k' = (m.get? k').or (if k' = k then some v else none) := by
  rw [Keyed.insertIfNew, h.get?_upsert]
  split
  · next heq =>
    subst heq
    cases m.get? k' <;> rfl
  · rw [Option.or_none]

/-- A key behind all others comes to the end. -/
theorem insert_of_lt {m : Keyed κ α} {k : κ} (h : ∀ k' ∈ m.keys, k' < k) (v : α) :
    m.insert k v = m ++ [(k, v)] := by
  induction m with
  | nil => rfl
  | cons entry rest ih =>
    obtain ⟨key, v'⟩ := entry
    obtain ⟨hkey, hrest⟩ := List.forall_mem_cons.mp h
    have hne : k ≠ key := by
      rintro rfl
      exact Std.lt_irrefl hkey
    have hnot : ¬ k < key := fun hlt => Std.lt_irrefl (Std.lt_trans hkey hlt)
    rw [Keyed.insert, Keyed.upsert, if_neg hne, if_neg hnot]
    exact congrArg (_ :: ·) (ih hrest)

omit [DecidableEq κ] [DecidableLT κ] in
/-- Maps with the same keys list them alike. -/
theorem keys_eq_of_mem_iff {m : Keyed κ α} {m' : Keyed κ β} (h : m.Ordered) (h' : m'.Ordered)
    (same : ∀ k, k ∈ m.keys ↔ k ∈ m'.keys) : m.keys = m'.keys := by
  have perm := (List.perm_ext_iff_of_nodup h.nodup_keys h'.nodup_keys).mpr same
  refine perm.eq_of_pairwise (fun a b _ _ hab hba => ?_) (ordered_iff_keys.mp h)
    (ordered_iff_keys.mp h')
  exact absurd (Std.lt_trans hab hba) Std.lt_irrefl

omit [DecidableLT κ] in
/-- Maps with related lookups are related entry by entry. -/
theorem forall₂_of_get? {R : α → β → Prop} {m : Keyed κ α} {m' : Keyed κ β} (h : m.Ordered)
    (h' : m'.Ordered) (related : ∀ k, Option.Rel R (m.get? k) (m'.get? k)) :
    List.Forall₂ (fun entry entry' => entry.1 = entry'.1 ∧ R entry.2 entry'.2) m m' := by
  have hkeys : m.keys = m'.keys := by
    refine keys_eq_of_mem_iff h h' fun k => ?_
    rw [← isSome_get?_iff, ← isSome_get?_iff]
    have hrelated := related k
    generalize m.get? k = o at hrelated ⊢
    generalize m'.get? k = o' at hrelated ⊢
    cases hrelated <;> simp
  rw [keys, keys, ← List.forall₂_eq_eq_eq, List.forall₂_map_left_iff,
    List.forall₂_map_right_iff] at hkeys
  refine Positions.forall₂_of_mem hkeys fun entry entry' hmem hmem' hkey => ⟨hkey, ?_⟩
  have hrelated := related entry.1
  rw [h.get?_eq_some_iff.mpr hmem, hkey, h'.get?_eq_some_iff.mpr hmem'] at hrelated
  cases hrelated with
  | some hvalues => exact hvalues

/-- An entry stands between those with smaller keys and the rest; another value for its key stands
in its place. -/
theorem Ordered.exists_split {m : Keyed κ α} (h : m.Ordered) {k : κ} {v : α}
    (hget : m.get? k = some v) :
    ∃ before after, m = before ++ (k, v) :: after ∧ (∀ entry ∈ before, entry.1 < k) ∧
      ∀ v', m.insert k v' = before ++ (k, v') :: after := by
  induction m with
  | nil => cases hget
  | cons entry rest ih =>
    obtain ⟨key, w⟩ := entry
    rw [get?_cons] at hget
    split at hget
    · next hk =>
      subst hk
      cases hget
      refine ⟨[], rest, rfl, List.forall_mem_nil _, fun v' => ?_⟩
      rw [Keyed.insert, Keyed.upsert, if_pos rfl, List.nil_append]
    · next hk =>
      obtain ⟨before, after, hsplit, hbefore, hinsert⟩ := ih h.tail hget
      have hlt : key < k := h.head_lt (isSome_get?_iff.mp (hget ▸ rfl))
      have hnot : ¬ k < key := fun hlt' => Std.lt_irrefl (Std.lt_trans hlt hlt')
      refine ⟨(key, w) :: before, after, by rw [hsplit, List.cons_append], ?_, fun v' => ?_⟩
      · exact List.forall_mem_cons.mpr ⟨hlt, hbefore⟩
      · rw [Keyed.insert, Keyed.upsert, if_neg hk, if_neg hnot, List.cons_append, ← hinsert v']
        rfl

end Linear

end CanTables.Keyed

namespace CanTables

/-! ## Maps with their order -/

/-- A map that has its keys in order. -/
structure OrderedKeyed (κ α : Type) [LT κ] where
  entries : Keyed κ α
  ordered : entries.Ordered

namespace OrderedKeyed

variable {κ α : Type} [LT κ]

instance : Coe (OrderedKeyed κ α) (Keyed κ α) := ⟨entries⟩

instance : CanLift (Keyed κ α) (OrderedKeyed κ α) entries Keyed.Ordered :=
  ⟨fun m h => ⟨⟨m, h⟩, rfl⟩⟩

/-- The map without entries. -/
abbrev empty : OrderedKeyed κ α := ⟨[], Keyed.ordered_nil⟩

variable [DecidableEq κ] [LE κ] [Std.IsLinearOrder κ] [Std.LawfulOrderLT κ] [DecidableLT κ]

/-- The map with a value under a key, whatever was there before. -/
abbrev insert (m : OrderedKeyed κ α) (k : κ) (v : α) : OrderedKeyed κ α :=
  ⟨m.entries.insert k v, m.ordered.insert k v⟩

/-- The map with a value under a key, unless something is there already. -/
abbrev insertIfNew (m : OrderedKeyed κ α) (k : κ) (v : α) : OrderedKeyed κ α :=
  ⟨m.entries.insertIfNew k v, m.ordered.insertIfNew k v⟩

end OrderedKeyed

end CanTables
