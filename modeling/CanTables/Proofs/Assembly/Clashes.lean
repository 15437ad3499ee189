import CanTables.Proofs.Assembly.Sound
import CanTables.Proofs.Warnings

/-!
# CanTables.Proofs.Assembly.Clashes — values that are listed again

The states of a signal list raw values under names.  A listing of a value that another listing in
front of it has named already is dropped (`StateNames.Drops`), and this happens while a draft is
resolved, before anything is known about buses.  So every such listing is reported, also for signals
of which nothing is emitted (`SetDraft.clashesReported`).
-/

namespace CanTables

open Declaration Sorting

/-! ## Listings -/

namespace StateNames

/-- Of some listings one of a value is dropped, because one in front of it names the value. -/
def Drops (listings : List (Int × String)) (value : Int) (dropped : String) : Prop :=
  ∃ before after, listings = before ++ (value, dropped) :: after ∧ value ∈ before.map Prod.fst

variable {s : StateNames} {value : Int}

/-- A value that is listed has a name. -/
theorem mem_keys_add {listing : Int × String} : value ∈ (s.add listing).names.keys ↔
    value = listing.1 ∨ value ∈ s.names.keys := by
  unfold add
  split
  · next kept hkept =>
    have hlisted : listing.1 ∈ s.names.keys :=
      Keyed.isSome_get?_iff.mp (Option.isSome_of_eq_some hkept)
    refine ⟨.inr, fun h => ?_⟩
    rcases h with rfl | h
    · exact hlisted
    · exact h
  · exact Keyed.mem_keys_upsert

theorem mem_keys_foldl_add {listings : List (Int × String)} :
    value ∈ (listings.foldl add s).names.keys ↔
      value ∈ listings.map Prod.fst ∨ value ∈ s.names.keys := by
  induction listings generalizing s with
  | nil => simp
  | cons listing rest ih =>
    rw [List.foldl_cons, ih, mem_keys_add, List.map_cons, List.mem_cons]
    tauto

theorem clashes_subset_foldl_add (listings : List (Int × String)) :
    s.clashes ⊆ (listings.foldl add s).clashes := by
  induction listings generalizing s with
  | nil => exact List.Subset.refl _
  | cons listing rest ih =>
    refine List.Subset.trans ?_ ih
    unfold add
    split
    · exact List.subset_append_left _ _
    · exact List.Subset.refl _

/-- A listing of a value that has a name is a clash. -/
theorem exists_clash_add (h : value ∈ s.names.keys) (name : String) :
    ∃ kept, ⟨value, kept, name⟩ ∈ (s.add (value, name)).clashes := by
  obtain ⟨kept, hkept⟩ := Option.isSome_iff_exists.mp (Keyed.isSome_get?_iff.mpr h)
  refine ⟨kept, ?_⟩
  unfold add
  rw [hkept]
  exact List.mem_append_right _ List.mem_cons_self

/-- Every listing that is dropped is a clash. -/
theorem exists_clash_of_drops {raw : Keyed String (List Int)} {dropped : String}
    (h : Drops (listings raw) value dropped) :
    ∃ kept, ⟨value, kept, dropped⟩ ∈ (ofListings raw).clashes := by
  obtain ⟨before, after, hsplit, hbefore⟩ := h
  have hlisted : value ∈ (before.foldl add empty).names.keys :=
    mem_keys_foldl_add.mpr (.inl hbefore)
  obtain ⟨kept, hclash⟩ := exists_clash_add hlisted dropped
  refine ⟨kept, ?_⟩
  rw [ofListings, hsplit, List.foldl_append, List.foldl_cons]
  exact clashes_subset_foldl_add after hclash

end StateNames

/-! ## Drafts -/

/-- The line about a clash names the signal. -/
theorem MessageDraft.warns_of_clashEntry {journal : List Entry} {set genericName : String}
    {id : UInt32} {clash : StateClash} (h : clashEntry set id genericName clash ∈ journal) :
    Warns journal set genericName := by
  refine ⟨.ofMessage set id, _, rfl, h, .inl ?_⟩
  simpa only [String.empty_append, String.append_assoc] using
    hasWord_between (by decide : Opens "Signal " = true) (by decide : Closes " maps value " = true)
      "" genericName
      (Text.Digits.decimal clash.value ++ " to both '" ++ clash.kept ++ "' and '" ++
        clash.dropped ++ "', keeping '" ++ clash.kept ++ "'")

namespace SetDraft

/-- Whenever a listing of a signal's states is dropped, a warning names the signal. -/
def ClashesReported (d : SetDraft) (journal : List Entry) : Prop :=
  ∀ m ∈ d.messages, ∀ entry ∈ m.signals, ∀ value dropped,
    StateNames.Drops (StateNames.listings ((entry.2 .states).getD [])) value dropped →
      Warns journal d.name (genericNameOf entry.1 entry.2)

theorem ClashesReported.mono {d : SetDraft} {journal journal' : List Entry}
    (h : d.ClashesReported journal) (sub : journal ⊆ journal') : d.ClashesReported journal' :=
  fun m hm entry hentry value dropped hdrops => (h m hm entry hentry value dropped hdrops).mono sub

/-- Resolving a draft reports every listing that it drops. -/
theorem clashesReported (d : SetDraft) : d.ClashesReported d.resolve.journal := by
  intro m hm entry hentry value dropped hdrops
  obtain ⟨kept, hclash⟩ := StateNames.exists_clash_of_drops hdrops
  have hline : MessageDraft.clashEntry d.name m.id (genericNameOf entry.1 entry.2)
      ⟨value, kept, dropped⟩ ∈ d.resolve.journal := by
    refine Run.mem_journal_bind_left (List.mem_flatMap.mpr ⟨m, mem_orderedMessages.mpr hm, ?_⟩)
    exact List.mem_flatMap.mpr ⟨entry, hentry, List.mem_map_of_mem hclash⟩
  exact MessageDraft.warns_of_clashEntry hline

end SetDraft

end CanTables
