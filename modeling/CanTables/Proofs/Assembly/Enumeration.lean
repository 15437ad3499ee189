import CanTables.Proofs.Assembly.Clashes
import Mathlib.Data.List.Dedup

/-!
# CanTables.Proofs.Assembly.Enumeration — the states that an enumeration gives

Names are taken in order and the first listing of a value decides, so a value has the least of all
names that list it.  This is the invariant of the loop over the listings: a value that has a name so
far has that of its first listing (`StateNames.get?_names_foldl_add`).

Every listing either names a value or is a clash (`StateNames.perm_foldl_add`).  So there are as many
clashes as there are listings more than values, however the repetitions are spread over the names.
-/

namespace CanTables

open Declaration

/-! ## Enumerations -/

namespace StateNames

/-- The values that an enumeration lists, each as often as it is listed. -/
def listedValues (raw : Keyed String (List Int)) : List Int := raw.flatMap Prod.snd

/-- An enumeration lists a value under a name. -/
def Lists (raw : Keyed String (List Int)) (value : Int) (name : String) : Prop :=
  ∃ values, (name, values) ∈ raw ∧ value ∈ values

/-- The name of a value is the least one that lists it. -/
structure IsNameOf (raw : Keyed String (List Int)) (value : Int) (name : String) : Prop where
  lists : Lists raw value name
  least : ∀ name', Lists raw value name' → name ≤ name'

/-- States are those of an enumeration: its values in increasing order, each with its name. -/
structure Enumerates (raw : Keyed String (List Int)) (states : List SignalState) : Prop where
  sorted : states.Pairwise fun a b => a.value < b.value
  mem_values_iff : ∀ value, value ∈ states.map (·.value) ↔ value ∈ listedValues raw
  named : ∀ state ∈ states, IsNameOf raw state.value state.name

end StateNames

/-! ## Listings -/

namespace StateNames

variable {s : StateNames} {raw : Keyed String (List Int)}

theorem listings_map_fst : (listings raw).map Prod.fst = listedValues raw := by
  rw [listings, List.map_flatMap]
  refine List.flatMap_congr fun entry _ => ?_
  rw [List.map_map]
  exact List.map_id _

theorem mem_listings_iff {value : Int} {name : String} :
    (value, name) ∈ listings raw ↔ Lists raw value name := by
  rw [listings, List.mem_flatMap]
  constructor
  · rintro ⟨⟨name', values⟩, hentry, hlisted⟩
    obtain ⟨value', hvalue, heq⟩ := List.mem_map.mp hlisted
    cases heq
    exact ⟨values, hentry, hvalue⟩
  · rintro ⟨values, hentry, hvalue⟩
    exact ⟨(name, values), hentry, List.mem_map.mpr ⟨value, hvalue, rfl⟩⟩

/-- Listings come in the order of their names. -/
theorem listings_pairwise (raw : OrderedKeyed String (List Int)) :
    (listings raw).Pairwise fun a b => a.2 ≤ b.2 := by
  refine List.pairwise_flatMap.mpr ⟨fun entry _ => ?_, raw.ordered.imp fun hlt a ha b hb => ?_⟩
  · rw [List.pairwise_map]
    exact List.pairwise_of_forall fun _ _ => Std.le_refl _
  · obtain ⟨value, -, rfl⟩ := List.mem_map.mp ha
    obtain ⟨value', -, rfl⟩ := List.mem_map.mp hb
    exact Std.le_of_lt hlt

/-- The first listing of a value has the least name. -/
theorem isNameOf_of_find? (raw : OrderedKeyed String (List Int)) {value : Int}
    {listing : Int × String} (h : (listings raw).find? (·.1 == value) = some listing) :
    IsNameOf raw value listing.2 := by
  obtain ⟨value', name⟩ := listing
  obtain ⟨hvalue, before, after, hsplit, hbefore⟩ := List.find?_eq_some_iff_append.mp h
  obtain rfl : value' = value := beq_iff_eq.mp hvalue
  refine ⟨mem_listings_iff.mp (List.mem_of_find?_eq_some h), fun name' hname' => ?_⟩
  have hpairwise := listings_pairwise raw
  have hmem := mem_listings_iff.mpr hname'
  rw [hsplit] at hpairwise hmem
  obtain ⟨-, hcons, -⟩ := List.pairwise_append.mp hpairwise
  -- No listing in front of the first one has its value, so the other one stands behind it.
  rcases List.mem_append.mp hmem with hmem | hmem
  · have hother := hbefore _ hmem
    simp at hother
  · rcases List.mem_cons.mp hmem with heq | hmem
    · cases heq
      exact Std.le_refl _
    · exact (List.pairwise_cons.mp hcons).1 _ hmem

/-! ## One listing after the other -/

/-- A value that has a name keeps it. -/
theorem get?_names_add (h : s.names.Ordered) (listing : Int × String) (value : Int) :
    (s.add listing).names.get? value =
      (s.names.get? value).or (if listing.1 = value then some listing.2 else none) := by
  unfold add
  split
  · next kept hkept =>
    by_cases heq : listing.1 = value
    · rw [← heq, hkept]
      rfl
    · rw [if_neg heq, Option.or_none]
  · next hnew =>
    rw [h.get?_insert]
    by_cases heq : listing.1 = value
    · rw [if_pos heq.symm, if_pos heq, ← heq, hnew]
      rfl
    · rw [if_neg (Ne.symm heq), if_neg heq, Option.or_none]

/-- A value without a name gets that of its first listing. -/
theorem get?_names_foldl_add (h : s.names.Ordered) (listings : List (Int × String)) (value : Int) :
    (listings.foldl add s).names.get? value =
      (s.names.get? value).or ((listings.find? (·.1 == value)).map Prod.snd) := by
  induction listings generalizing s with
  | nil => exact (Option.or_none ..).symm
  | cons listing rest ih =>
    -- Whatever has a name by now keeps it, so the rest decides only about values that have none.
    have hadd : (s.add listing).names.Ordered := names_foldl_add_ordered h [listing]
    rw [List.foldl_cons, ih hadd, get?_names_add h, Option.or_assoc, List.find?_cons]
    by_cases heq : listing.1 = value
    · rw [if_pos heq, beq_iff_eq.mpr heq]
      rfl
    · rw [if_neg heq, beq_eq_false_iff_ne.mpr heq]
      rfl

/-- A listing names its value or is a clash about it. -/
theorem perm_add (listing : Int × String) :
    ((s.add listing).clashes.map (·.value) ++ (s.add listing).names.keys).Perm
      (listing.1 :: (s.clashes.map (·.value) ++ s.names.keys)) := by
  unfold add
  split
  · rw [List.map_append, List.append_assoc]
    exact List.perm_middle
  · next hnew =>
    have hkeys := Keyed.perm_keys_upsert (Keyed.get?_eq_none_iff.mp hnew) fun _ => listing.2
    exact (hkeys.append_left _).trans List.perm_middle

theorem perm_foldl_add (listings : List (Int × String)) :
    ((listings.foldl add s).clashes.map (·.value) ++ (listings.foldl add s).names.keys).Perm
      (listings.map Prod.fst ++ (s.clashes.map (·.value) ++ s.names.keys)) := by
  induction listings generalizing s with
  | nil => exact .refl _
  | cons listing rest ih =>
    refine ih.trans ?_
    exact ((perm_add listing).append_left _).trans List.perm_middle

/-! ## The whole enumeration -/

theorem names_ordered (raw : Keyed String (List Int)) : (ofListings raw).names.Ordered :=
  names_foldl_add_ordered Keyed.ordered_nil (listings raw)

/-- The values with a name are those that are listed. -/
theorem mem_keys_ofListings {value : Int} :
    value ∈ (ofListings raw).names.keys ↔ value ∈ listedValues raw := by
  rw [ofListings, mem_keys_foldl_add, listings_map_fst]
  exact or_iff_left List.not_mem_nil

/-- The states of a signal are those of its enumeration. -/
theorem enumerates_states (raw : OrderedKeyed String (List Int)) :
    Enumerates raw (ofListings raw).states := by
  have hkeys : (ofListings raw).states.map (·.value) = (ofListings raw).names.keys := by
    rw [states, List.map_map]
    rfl
  refine ⟨states_ordered raw, fun value => ?_, fun state hstate => ?_⟩
  · rw [hkeys, mem_keys_ofListings]
  · obtain ⟨⟨value, name⟩, hmem, rfl⟩ := List.mem_map.mp hstate
    have hget := (names_ordered raw).get?_eq_some_iff.mpr hmem
    rw [ofListings, get?_names_foldl_add Keyed.ordered_nil] at hget
    obtain ⟨listing, hfirst, rfl⟩ := Option.map_eq_some_iff.mp hget
    exact isNameOf_of_find? raw hfirst

/-- Of the listings of a value all but one are clashes. -/
theorem clashes_length (raw : Keyed String (List Int)) :
    (ofListings raw).clashes.length + (listedValues raw).dedup.length =
      (listedValues raw).length := by
  -- Every value has one name, so the listings that gave a name are as many as there are values.
  have hvalues : (ofListings raw).names.keys.Perm (listedValues raw).dedup := by
    refine (List.perm_ext_iff_of_nodup (names_ordered raw).nodup_keys (List.nodup_dedup _)).mpr ?_
    exact fun value => mem_keys_ofListings.trans List.mem_dedup.symm
  have hall : ((ofListings raw).clashes.map (·.value) ++ (ofListings raw).names.keys).Perm
      ((listings raw).map Prod.fst ++ []) := perm_foldl_add (listings raw)
  rw [listings_map_fst, List.append_nil] at hall
  have hlength := hall.length_eq
  rwa [List.length_append, List.length_map, hvalues.length_eq] at hlength

end StateNames

/-! ## Warnings -/

/-- The warnings of a journal. -/
def warnings (journal : List Entry) : List Entry := journal.filter fun e => e.level == .warn

/-- The warnings about the values that a signal of a draft lists again. -/
def MessageDraft.duplicates (set : String) (d : MessageDraft) (entry : String × SignalLayer) :
    List Entry :=
  (stateNamesOf entry.2).clashes.map (clashEntry set d.id (genericNameOf entry.1 entry.2))

/-- Resolving a draft warns about values that are listed again, signal by signal, and about nothing
else. -/
theorem SetDraft.warnings_resolve (d : SetDraft) :
    warnings d.resolve.journal =
      d.orderedMessages.flatMap fun draft => draft.signals.flatMap (draft.duplicates d.name) := by
  obtain ⟨rest, hrest, hnone⟩ : ∃ rest, d.resolve.journal =
      d.orderedMessages.flatMap (MessageDraft.clashEntries d.name) ++ rest ∧
        warnings rest = [] := by
    refine ⟨_, rfl, ?_⟩
    cases d.requests.mapM resolveRequest <;> rfl
  rw [hrest, warnings, List.filter_append, ← warnings, ← warnings, hnone, List.append_nil, warnings,
    List.filter_eq_self.mpr]
  · rfl
  · intro e he
    obtain ⟨draft, -, he⟩ := List.mem_flatMap.mp he
    obtain ⟨entry, -, he⟩ := List.mem_flatMap.mp he
    obtain ⟨clash, -, rfl⟩ := List.mem_map.mp he
    rfl

end CanTables
