import CanTables.Proofs.Assembly.Sound
import CanTables.Proofs.Tables.Agree

/-!
# CanTables.Proofs.Tables.Compiled — tables of sets that are compiled together

Sets are numbered in the order of their names, and the longest table of each kind gives the bound
that is declared for it.  Whenever the tables of assembled sets can be made at all, the tables of
every set agree with it, and no index in them reaches the bound that is declared for it.
-/

namespace CanTables

open Positions Sorting

namespace Tables

/-- A number is the largest count over all sets. -/
structure IsLargest (t : Tables) (count : SetTables → Nat) (n : Nat) : Prop where
  le : ∀ set ∈ t.sets, count set ≤ n
  attained : t.sets ≠ [] → ∃ set ∈ t.sets, count set = n
  of_nil : t.sets = [] → n = 0

/-- Indices stay below the bounds that are declared for them. -/
structure Bounded (t : Tables) : Prop where
  message_lt : ∀ set ∈ t.sets, ∀ row ∈ set.signals, row.messageIndex < t.maxMessageCount
  signal_lt : ∀ set ∈ t.sets, ∀ row ∈ set.messages, ∀ k ∈ row.signals, k < t.maxSignalCount
  state_lt : ∀ set ∈ t.sets, ∀ row ∈ set.signals, ∀ block, row.states = some block →
    block.index < t.maxSignalCount

/-- The tables are those of some sets, in the order of their names. -/
structure AreOf (t : Tables) (sets : List MessageSet) : Prop where
  sets : ∃ inOrder : List MessageSet, inOrder.Perm sets ∧
    inOrder.Pairwise (fun a b => a.name ≤ b.name) ∧ List.Forall₂ SetTables.Agrees t.sets inOrder
  indices : t.sets.map (·.index) = List.range t.sets.length
  maxMessageCount : t.IsLargest (·.messages.length) t.maxMessageCount
  maxSignalCount : t.IsLargest (·.signals.length) t.maxSignalCount
  maxCommandCount : t.IsLargest (·.commands.length) t.maxCommandCount
  maxRequestCount : t.IsLargest (·.requests.length) t.maxRequestCount
  bounded : t.Bounded

/-! ## Bounds -/

theorem largest_isLargest (t : Tables) (count : SetTables → Nat) :
    t.IsLargest count (t.largest count) := by
  obtain ⟨sets, tally⟩ := t
  show IsLargest ⟨sets, tally⟩ count (sets.foldr (fun s most => max (count s) most) 0)
  induction sets with
  | nil => exact ⟨fun _ hset => absurd hset List.not_mem_nil, fun hne => absurd rfl hne, fun _ => rfl⟩
  | cons set rest ih =>
    rw [List.foldr_cons]
    generalize rest.foldr (fun s most => max (count s) most) 0 = most at ih ⊢
    refine ⟨fun set' hset' => ?_, fun _ => ?_, fun hnil => absurd hnil (List.cons_ne_nil _ _)⟩
    · rcases List.mem_cons.mp hset' with rfl | hset'
      · exact Nat.le_max_left _ _
      · exact Nat.le_trans (ih.le set' hset') (Nat.le_max_right _ _)
    · by_cases hle : most ≤ count set
      · exact ⟨set, List.mem_cons_self, (Nat.max_eq_left hle).symm⟩
      · -- The first set is not the largest, so the others are not none.
        have hne : rest ≠ [] := by
          intro hnil
          have := ih.of_nil hnil
          omega
        obtain ⟨set', hset', hmost⟩ := ih.attained hne
        exact ⟨set', List.mem_cons_of_mem _ hset', by rw [hmost, Nat.max_eq_right (by omega)]⟩

theorem bounded_of_agrees {t : Tables} (h : ∀ set ∈ t.sets, ∃ s, set.Agrees s) : t.Bounded where
  message_lt set hset row hrow := by
    obtain ⟨s, hagrees⟩ := h set hset
    obtain ⟨message, hmessage, -⟩ := hagrees.signal_message row hrow
    obtain ⟨hlt, -⟩ := List.getElem?_eq_some_iff.mp hmessage
    exact Nat.lt_of_lt_of_le hlt ((largest_isLargest t (·.messages.length)).le set hset)
  signal_lt set hset row hrow k hk := by
    obtain ⟨s, hagrees⟩ := h set hset
    have hmem : k ∈ set.messages.flatMap (·.signals) := List.mem_flatMap.mpr ⟨row, hrow, hk⟩
    rw [hagrees.signals_tile, List.mem_range] at hmem
    exact Nat.lt_of_lt_of_le hmem ((largest_isLargest t (·.signals.length)).le set hset)
  state_lt set hset row hrow block hblock := by
    obtain ⟨s, hagrees⟩ := h set hset
    have hmem : block.index ∈ set.signals.filterMap fun row => row.states.map (·.index) :=
      List.mem_filterMap.mpr ⟨row, hrow, by rw [hblock]; rfl⟩
    rw [hagrees.states_numbered, List.mem_range] at hmem
    have hle : set.stateRows.length ≤ set.signals.length := List.length_filter_le _ _
    exact Nat.lt_of_lt_of_le (Nat.lt_of_lt_of_le hmem hle)
      ((largest_isLargest t (·.signals.length)).le set hset)

/-! ## Sets in order -/

/-- The tables that were planned are those of the sets, numbered on. -/
theorem planFrom_tables {index : Nat} {sets : List MessageSet} {planned : List (SetTables × Tally)}
    (h : (planFrom index sets).outcome = .ok planned) :
    List.Forall₂ (fun t s => (s.tables t.index).outcome = .ok t) (planned.map Prod.fst) sets ∧
      (planned.map Prod.fst).map (·.index) = List.range' index planned.length := by
  induction sets generalizing index planned with
  | nil =>
    cases h
    exact ⟨.nil, rfl⟩
  | cons s rest ih =>
    obtain ⟨t, ht, h⟩ := Run.bind_outcome_eq_ok_iff.mp h
    obtain ⟨others, hothers, h⟩ := Run.bind_outcome_eq_ok_iff.mp h
    cases h
    obtain rfl : t.index = index := MessageSet.index_of_tables ht
    obtain ⟨hall, hindices⟩ := ih hothers
    refine ⟨.cons ht hall, ?_⟩
    rw [List.map_cons, List.map_cons, hindices, List.length_cons, List.range'_succ]

theorem planFrom_eq_ok {index : Nat} {sets : List SoundSet} {planned : List (SetTables × Tally)}
    (h : (planFrom index (sets.map SoundSet.toMessageSet)).outcome = .ok planned) :
    List.Forall₂ SetTables.Agrees (planned.map Prod.fst) (sets.map SoundSet.toMessageSet) ∧
      (planned.map Prod.fst).map (·.index) = List.range' index planned.length := by
  obtain ⟨htables, hindices⟩ := planFrom_tables h
  refine ⟨forall₂_of_mem htables fun t s _ hs ht => ?_, hindices⟩
  obtain ⟨s, -, rfl⟩ := List.mem_map.mp hs
  exact (s.tables_agree ht).2

/-- Sound sets stay sound sets when they are put in order. -/
theorem ordered_soundSets (sets : List SoundSet) : ordered (sets.map SoundSet.toMessageSet) =
    (sortBy (byKey fun s => s.name) sets).map SoundSet.toMessageSet := sortBy_map _ _ _

/-- The tables at a position are those of one of the sets at this position. -/
theorem tables_of_getElem? {sets : List MessageSet} {t : Tables}
    (h : (ofSets sets).outcome = .ok t) {i : Nat} {set : SetTables} (hset : t.sets[i]? = some set) :
    ∃ s ∈ sets, (s.tables i).outcome = .ok set := by
  obtain ⟨planned, hplanned, h⟩ := Run.bind_outcome_eq_ok_iff.mp h
  obtain ⟨htables, hindices⟩ := planFrom_tables hplanned
  obtain rfl := Except.ok.inj h
  have hnumber : ((planned.map Prod.fst).map (·.index))[i]? = some set.index := by
    rw [List.getElem?_map, hset]
    rfl
  rw [hindices] at hnumber
  obtain ⟨hlt, hi⟩ := List.getElem?_eq_some_iff.mp hnumber
  rw [List.getElem_range', Nat.zero_add, Nat.one_mul] at hi
  obtain ⟨s, hs, hset'⟩ := exists_right_of_forall₂ htables (List.mem_of_getElem? hset)
  exact ⟨s, mem_sortBy.mp hs, hi ▸ hset'⟩

/-- The tables at a position have it as their number, and agree with one of the sets. -/
theorem agrees_of_getElem? {sets : List MessageSet} {t : Tables}
    (assembled : ∀ s ∈ sets, ∃ (c : Catalog) (settings : Settings) (name : String),
      (c.assemble settings name).outcome = .ok s)
    (h : (ofSets sets).outcome = .ok t) {i : Nat} {set : SetTables} (hset : t.sets[i]? = some set) :
    set.index = i ∧ ∃ s ∈ sets, set.Agrees s := by
  obtain ⟨s, hs, htables⟩ := tables_of_getElem? h hset
  obtain ⟨c, settings, name, hassemble⟩ := assembled s hs
  lift s to SoundSet using Catalog.sound_of_assemble hassemble
  obtain ⟨hindex, hagrees⟩ := s.tables_agree htables
  exact ⟨hindex, s, hs, hagrees⟩

/-- The tables of assembled sets are laid out consistently, whenever they can be made. -/
theorem areOf_of_ofSets {sets : List MessageSet} {t : Tables}
    (assembled : ∀ s ∈ sets, ∃ (c : Catalog) (settings : Settings) (name : String),
      (c.assemble settings name).outcome = .ok s)
    (h : (ofSets sets).outcome = .ok t) : t.AreOf sets := by
  obtain ⟨sets, rfl⟩ := Catalog.exists_soundSets assembled
  obtain ⟨planned, hplanned, h⟩ := Run.bind_outcome_eq_ok_iff.mp h
  rw [ordered_soundSets] at hplanned
  obtain ⟨hagrees, hindices⟩ := planFrom_eq_ok hplanned
  rw [← ordered_soundSets] at hagrees
  obtain rfl := Except.ok.inj h
  refine ⟨⟨ordered _, sortBy_perm _ _, sortBy_byKey_pairwise MessageSet.name _, hagrees⟩,
    ?_, largest_isLargest _ _, largest_isLargest _ _, largest_isLargest _ _,
    largest_isLargest _ _, bounded_of_agrees fun set hset => ?_⟩
  · rw [List.length_map, List.range_eq_range']
    exact hindices
  · obtain ⟨s, -, hset⟩ := exists_right_of_forall₂ hagrees hset
    exact ⟨s, hset⟩

theorem areOf_of_ofSets_layered : ∃ s t,
    (Catalog.layered.assemble .usual "child.json").outcome = .ok s ∧
      (ofSets [s, s]).outcome = .ok t ∧
      (t.maxMessageCount = 1 ∧ t.maxSignalCount = 2 ∧ t.sets.length = 2) ∧ t.AreOf [s, s] := by
  have hany : (Catalog.layered.assemble .usual "child.json" >>= fun s =>
      ofSets [s, s]).outcome.toOption.any (fun t =>
        t.maxMessageCount = 1 ∧ t.maxSignalCount = 2 ∧ t.sets.length = 2) = true := by
    decide +kernel
  obtain ⟨t, h, hcounts⟩ := Except.exists_of_any_toOption hany
  obtain ⟨s, hs, ht⟩ := Run.bind_outcome_eq_ok_iff.mp h
  refine ⟨s, t, hs, ht, of_decide_eq_true hcounts, areOf_of_ofSets (fun s' hs' => ?_) ht⟩
  have heq : s' = s := by simpa using hs'
  exact ⟨Catalog.layered, .usual, "child.json", heq ▸ hs⟩

end Tables

end CanTables
