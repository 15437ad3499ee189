import CanTables.Proofs.Journal
import CanTables.Proofs.MessageSet.Rows
import CanTables.Proofs.Order.Positions
import CanTables.Tables.Plan

/-!
# CanTables.Proofs.Tables.Place — which candidates become rows

Every enabled message becomes a row and every enabled signal whose tables can be made, and nothing
else does: no candidate is lost because its bus or its message has no row.
-/

namespace CanTables

open Positions Sorting

namespace MessageSet

variable {s : MessageSet}

/-! ## Positions in the bus table -/

theorem busRows_refs : s.busRows.map (·.ref) = s.validBuses.map Prod.fst := by
  rw [busRows, List.map_map]
  rfl

theorem busRows_nodup : (s.busRows.map (·.ref)).Nodup := busRows_refs ▸ validBuses_nodup

theorem busIndex?_eq_some_iff {r : Bus.Ref} {i : Nat} :
    s.busIndex? r = some i ↔ (s.busRows.map (·.ref))[i]? = some r := by
  unfold busIndex?
  rw [List.findIdx?_eq_some_iff_getElem, List.getElem?_map]
  constructor
  · rintro ⟨hi, href, -⟩
    rw [List.getElem?_eq_getElem hi, Option.map_some, beq_iff_eq.mp href]
  · intro h
    obtain ⟨row, hrow, rfl⟩ := Option.map_eq_some_iff.mp h
    obtain ⟨hi, rfl⟩ := List.getElem?_eq_some_iff.mp hrow
    refine ⟨hi, beq_self_eq_true _, fun j hj heq => ?_⟩
    have hne := List.pairwise_iff_getElem.mp (List.pairwise_map.mp (busRows_nodup (s := s)))
    exact hne j i (by omega) hi hj (beq_iff_eq.mp heq)

/-- The buses of the bus table are the valid ones. -/
theorem mem_busRows_refs_iff {r : Bus.Ref} :
    r ∈ s.busRows.map (·.ref) ↔ s.busValid r = true := by
  rw [busRows_refs, busValid_iff, List.mem_map]
  constructor
  · rintro ⟨⟨r, b⟩, hmem, rfl⟩
    exact ⟨b, mem_validBuses_iff.mp hmem⟩
  · rintro ⟨b, hb⟩
    exact ⟨(r, b), mem_validBuses_iff.mpr hb, rfl⟩

theorem exists_busIndex?_iff {r : Bus.Ref} :
    (∃ i, s.busIndex? r = some i) ↔ s.busValid r = true := by
  rw [← mem_busRows_refs_iff, List.mem_iff_getElem?]
  exact exists_congr fun i => busIndex?_eq_some_iff

theorem exists_busIndex? {r : Bus.Ref} (h : s.busValid r = true) :
    ∃ i, s.busIndex? r = some i := exists_busIndex?_iff.mpr h

/-- Buses that stand one behind the other have increasing positions. -/
theorem busIndex?_increasing : (s.validBuses.map Prod.fst).Pairwise fun r r' =>
    ∀ i i', s.busIndex? r = some i → s.busIndex? r' = some i' → i < i' := by
  rw [← busRows_refs]
  refine (positions_increasing busRows_nodup).imp fun hlt i i' hi hi' => ?_
  exact hlt i i' (busIndex?_eq_some_iff.mp hi) (busIndex?_eq_some_iff.mp hi')

/-! ## Messages -/

/-- A placed message is the candidate that it was made of, on a row of the bus table. -/
def PlacedMessage.IsOf (s : MessageSet) (entry : Message.Ref × Message) (p : PlacedMessage) : Prop :=
  p.ref = entry.1 ∧ p.message = entry.2 ∧
    ∃ r, entry.2.bus = some r ∧ s.busIndex? r = some p.busIndex

/-- Exactly the enabled messages become rows. -/
theorem placeMessage_eq_ok {entry : Message.Ref × Message} {p? : Option PlacedMessage}
    (h : (s.placeMessage entry).outcome = .ok p?) :
    s.enabledMessage entry.2 = false ∧ p? = none ∨
      s.enabledMessage entry.2 = true ∧ ∃ p, p? = some p ∧ PlacedMessage.IsOf s entry p := by
  obtain ⟨k, m⟩ := entry
  unfold placeMessage at h
  cases henabled : s.enabledMessage m with
  | false =>
    simp only [henabled, Bool.not_false, if_true] at h
    exact .inl ⟨rfl, (Except.ok.inj h).symm⟩
  | true =>
    obtain ⟨-, r, hbus, hvalid⟩ := enabledMessage_iff.mp henabled
    obtain ⟨i, hi⟩ := exists_busIndex? hvalid
    simp only [henabled, Bool.not_true, Bool.false_eq_true, if_false] at h
    rw [hbus, Option.bind_some, hi] at h
    exact .inr ⟨rfl, ⟨k, m, i⟩, (Except.ok.inj h).symm, rfl, rfl, r, hbus, hi⟩

theorem mapM_placeMessage_eq_ok {candidates : List (Message.Ref × Message)}
    {placed : List (Option PlacedMessage)}
    (h : (candidates.mapM s.placeMessage).outcome = .ok placed) :
    List.Forall₂ (PlacedMessage.IsOf s) (candidates.filter fun entry => s.enabledMessage entry.2)
      (placed.filterMap id) := by
  rw [Run.outcome_mapM, Except.mapM_eq_ok_iff] at h
  exact forall₂_filter_filterMap (h.imp fun _ _ => placeMessage_eq_ok)

/-! ## Signals -/

section LastIndex

variable {α : Type} {test : α → Bool} {l : List α}

theorem getElem?_of_lastIndex? {i : Nat} (h : lastIndex? test l = some i) :
    ∃ a, l[i]? = some a ∧ test a = true := by
  obtain ⟨⟨a, j⟩, hlast, rfl⟩ := Option.map_eq_some_iff.mp h
  obtain ⟨hmem, htest⟩ := List.mem_filter.mp (List.mem_of_getLast? hlast)
  exact ⟨a, List.mk_mem_zipIdx_iff_getElem?.mp hmem, htest⟩

theorem exists_lastIndex? {a : α} (ha : a ∈ l) (htest : test a = true) :
    ∃ i, lastIndex? test l = some i := by
  rw [← Option.isSome_iff_exists, lastIndex?, Option.isSome_map, List.getLast?_isSome]
  obtain ⟨i, hi⟩ := List.mem_iff_getElem?.mp ha
  exact List.ne_nil_of_mem
    (List.mem_filter.mpr ⟨List.mk_mem_zipIdx_iff_getElem?.mpr hi, htest⟩)

end LastIndex

/-- A placed signal is the candidate that it was made of, with the position of its message among
those given and of its bits in the emitted numbering. -/
def PlacedSignal.IsOf (s : MessageSet) (messages : List Message.Ref)
    (entry : Signal.Ref × Signal) (p : PlacedSignal) : Prop :=
  p.ref = entry.1 ∧ p.signal = entry.2 ∧ messages[p.messageIndex]? = some entry.2.message ∧
    s.signalPosition entry.2 = .ok (some p.bitPosition) ∧ entry.2.bitSize = some p.bitSize

theorem placement_eq_ok {x : Signal} {position size : UInt32}
    (h : s.placement x = .ok (position, size)) :
    s.signalPosition x = .ok (some position) ∧ x.bitSize = some size := by
  unfold placement at h
  split at h
  · cases h
  · next position? hposition =>
    split at h
    · next hsize =>
      cases h
      exact ⟨hposition, hsize⟩
    · cases h

/-- Exactly the enabled signals become rows, where every enabled message is among those given. -/
theorem placeSignal_eq_ok {messages : List Message.Ref}
    (hmessages : ∀ k, s.messageEnabled k = true → k ∈ messages)
    {entry : Signal.Ref × Signal} {p? : Option PlacedSignal}
    (h : (s.placeSignal messages entry).outcome = .ok p?) :
    s.enabledSignal entry.2 = false ∧ p? = none ∨
      s.enabledSignal entry.2 = true ∧
        ∃ p, p? = some p ∧ PlacedSignal.IsOf s messages entry p := by
  obtain ⟨r, x⟩ := entry
  unfold placeSignal at h
  cases henabled : s.enabledSignal x with
  | false =>
    simp only [henabled, Bool.not_false, if_true] at h
    exact .inl ⟨rfl, (Except.ok.inj h).symm⟩
  | true =>
    obtain ⟨-, howner⟩ := Bool.and_eq_true_iff.mp henabled
    obtain ⟨i, hi⟩ : ∃ i, lastIndex? (· == x.message) messages = some i :=
      exists_lastIndex? (hmessages _ howner) (beq_self_eq_true x.message)
    obtain ⟨k, hk, hkx⟩ := getElem?_of_lastIndex? hi
    cases beq_iff_eq.mp hkx
    simp only [henabled, Bool.not_true, Bool.false_eq_true, if_false] at h
    rw [hi] at h
    obtain ⟨⟨position, size⟩, hplacement, h⟩ := Run.bind_outcome_eq_ok_iff.mp h
    obtain ⟨hposition, hsize⟩ := placement_eq_ok hplacement
    have hp : some (PlacedSignal.mk r x i position size) = p? := by
      split at h <;> exact Except.ok.inj h
    exact .inr ⟨rfl, _, hp.symm, rfl, rfl, hk, hposition, hsize⟩

theorem mapM_placeSignal_eq_ok {messages : List Message.Ref}
    (hmessages : ∀ k, s.messageEnabled k = true → k ∈ messages)
    {candidates : List (Signal.Ref × Signal)} {placed : List (Option PlacedSignal)}
    (h : (candidates.mapM (s.placeSignal messages)).outcome = .ok placed) :
    List.Forall₂ (PlacedSignal.IsOf s messages)
      (candidates.filter fun entry => s.enabledSignal entry.2) (placed.filterMap id) := by
  rw [Run.outcome_mapM, Except.mapM_eq_ok_iff] at h
  exact forall₂_filter_filterMap (h.imp fun _ _ => placeSignal_eq_ok hmessages)

end MessageSet

end CanTables
