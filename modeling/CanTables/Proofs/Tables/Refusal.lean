import CanTables.Proofs.MessageSet.Fit
import CanTables.Proofs.Tables.Compiled
import CanTables.Proofs.Tables.Pruned

/-!
# CanTables.Proofs.Tables.Refusal — why tables cannot be made

The check and the tables look at different parts of a set: the check at all signals of messages on
valid buses, the tables at the enabled ones, and only the tables at bit numberings and at the buses
of diagnostic requests.  What the check asks for is never missed later, so for fit sets two reasons
remain: an enabled signal has no first bit once its numbering is turned around, or an enabled request
goes to no valid bus (`MessageSet.Refuses`).  Nothing that is disabled is among them.

`Tables.ofSets_of_checked`: the tables of fit sets can be made exactly if neither is the case for
any of them.
-/

namespace CanTables

open Payload Positions Sorting

namespace MessageSet

variable {s : MessageSet}

/-! ## What tables ask for -/

/-- The bits of a signal of a message are numbered the inverted way: what the signal says counts,
then what the message says, then what the set says. -/
def NumbersInverted (s : MessageSet) (m : Message) (x : Signal) : Prop :=
  (x.bitNumberingInverted.or m.bitNumberingInverted).getD s.bitNumberingInverted = true

/-- A diagnostic request names a bus of the set that is attached to a controller. -/
def Reaches (s : MessageSet) (q : Request) : Prop :=
  ∃ b ∈ s.buses, q.busName = some b.name ∧ b.isValid = true

/-- Enabled signals that are numbered the inverted way have a first bit, and enabled requests go to
valid buses. -/
structure Placeable (s : MessageSet) : Prop where
  first_bit : ∀ r x m, s.signal? r = some x → s.signalEnabled r = true →
    s.message? x.message = some m → s.NumbersInverted m x →
      ∃ position size first, x.bitPosition = some position ∧ x.bitSize = some size ∧
        invertPosition position size = .ok first
  reaches : ∀ q ∈ s.requests, q.enabled = true → s.Reaches q

/-- Why the tables of a fit set cannot be made. -/
inductive Refuses (s : MessageSet) : Fault → Prop where
  /-- An enabled signal has no first bit. -/
  | first_bit {r : Signal.Ref} {x : Signal} {m : Message} {position size : UInt32}
      {fault : InversionFault} (hx : s.signal? r = some x) (enabled : s.signalEnabled r = true)
      (hm : s.message? x.message = some m) (inverted : s.NumbersInverted m x)
      (hposition : x.bitPosition = some position) (hsize : x.bitSize = some size)
      (hfault : invertPosition position size = .error fault) :
      s.Refuses (.inversion s.name m.id x.genericName fault)
  /-- An enabled request goes to no valid bus. -/
  | reaches {q : Request} (hq : q ∈ s.requests) (enabled : q.enabled = true)
      (unreached : ¬ s.Reaches q) : s.Refuses (.unresolvedRequestBus q.busName q.id)

theorem Refuses.not_placeable {fault : Fault} (h : s.Refuses fault) : ¬ s.Placeable := by
  intro placeable
  cases h with
  | first_bit hx enabled hm inverted hposition hsize hfault =>
    obtain ⟨position, size, first, hposition', hsize', hfirst⟩ :=
      placeable.first_bit _ _ _ hx enabled hm inverted
    obtain rfl := Option.some.inj (hposition.symm.trans hposition')
    obtain rfl := Option.some.inj (hsize.symm.trans hsize')
    cases hfault.symm.trans hfirst
  | reaches hq enabled unreached => exact unreached (placeable.reaches _ hq enabled)

/-! ## Signals -/

theorem signalInverted_iff {m : Message} {x : Signal} (hm : s.message? x.message = some m) :
    s.signalInverted x = true ↔ s.NumbersInverted m x := by
  rw [signalInverted, hm, NumbersInverted]
  cases x.bitNumberingInverted <;> rfl

section Complete

variable {x : Signal} {position size : UInt32} (hposition : x.bitPosition = some position)
  (hsize : x.bitSize = some size)
include hposition hsize

theorem signalPosition_of_complete : s.signalPosition x =
    if s.signalInverted x then (invertPosition position size).map some
    else .ok (some position) := by
  rw [signalPosition, hposition, hsize]

/-- A signal with a position and a size is placed unless its first bit does not exist. -/
theorem exists_invertPosition_of_placement {fault : Fault} (h : s.placement x = .error fault) :
    s.signalInverted x = true ∧ ∃ e, invertPosition position size = .error e ∧
      fault = .inversion s.name (s.ownerId x) x.genericName e := by
  unfold placement at h
  rw [signalPosition_of_complete hposition hsize, hsize] at h
  cases hinverted : s.signalInverted x with
  | false =>
    simp only [hinverted, Bool.false_eq_true, if_false] at h
    cases h
  | true =>
    simp only [hinverted, if_true] at h
    cases hfirst : invertPosition position size with
    | error e =>
      rw [hfirst] at h
      cases h
      exact ⟨rfl, e, rfl, rfl⟩
    | ok first =>
      rw [hfirst] at h
      cases h

end Complete

theorem ownerId_eq {m : Message} {x : Signal} (hm : s.message? x.message = some m) :
    s.ownerId x = m.id := by
  rw [ownerId, hm]
  rfl

/-! ## Requests -/

theorem mem_activeRequests_iff {q : Request} :
    q ∈ s.activeRequests ↔ q ∈ s.requests ∧ q.enabled = true := by
  rw [activeRequests, mem_sortBy, List.mem_filter]

theorem placeRequest_outcome (q : Request) : (s.placeRequest q).outcome =
    match (q.busName.bind s.busNamed?).bind s.busIndex? with
    | none => .error (.unresolvedRequestBus q.busName q.id)
    | some busIndex => .ok ⟨busIndex, q⟩ := by
  unfold placeRequest
  cases (q.busName.bind s.busNamed?).bind s.busIndex? <;> rfl

end MessageSet

/-! ## Faults of sound sets -/

namespace SoundSet

open MessageSet

variable (s : SoundSet)

/-- Only an enabled signal without a first bit stops the tables of a fit set. -/
theorem refuses_of_placedSignal? (fit : s.isFit = true)
    {messages : List Message.Ref} {entry : Signal.Ref × Signal} (hentry : entry ∈ s.allSignals)
    {fault : Fault} (herror : s.placedSignal? messages entry = .error fault) : s.Refuses fault := by
  obtain ⟨r, x⟩ := entry
  obtain ⟨hx, m, hmem⟩ := s.mem_allSignals_iff.mp hentry
  obtain ⟨hm, -⟩ := s.mem_allMessages_iff.mp hmem
  unfold placedSignal? at herror
  split at herror
  · next enabled =>
    split at herror
    · cases herror
    · have henabled : s.signalEnabled r = true := signalEnabled_iff.mpr ⟨x, hx, enabled⟩
      obtain ⟨position, size, hposition, hsize⟩ := s.complete_of_isFit fit hx enabled
      obtain ⟨hinverted, e, he, rfl⟩ :=
        exists_invertPosition_of_placement hposition hsize (Except.map_eq_error_iff.mp herror)
      show s.Refuses (.inversion s.name (s.ownerId x) x.genericName e)
      rw [ownerId_eq hm]
      exact .first_bit hx henabled hm ((signalInverted_iff hm).mp hinverted) hposition hsize he
  · cases herror

/-- Where names of buses differ, the bus of a name is found. -/
theorem busNamed?_eq_some_iff {name : String} {r : Bus.Ref} :
    s.busNamed? name = some r ↔ ∃ b, s.bus? r = some b ∧ b.name = name := by
  unfold busNamed? bus?
  rw [Option.map_eq_some_iff]
  constructor
  · rintro ⟨i, hi, rfl⟩
    obtain ⟨hlt, hname, -⟩ := List.findIdx?_eq_some_iff_getElem.mp hi
    exact ⟨_, List.getElem?_eq_getElem hlt, beq_iff_eq.mp hname⟩
  · rintro ⟨b, hb, rfl⟩
    obtain ⟨hlt, rfl⟩ := List.getElem?_eq_some_iff.mp hb
    refine ⟨r.index, List.findIdx?_eq_some_iff_getElem.mpr ⟨hlt, beq_self_eq_true _, ?_⟩, rfl⟩
    intro j hj heq
    -- The buses are sorted by name, so none in front of this one has its name.
    have hless := List.pairwise_iff_getElem.mp s.buses_sorted j r.index (by omega) hlt hj
    rw [beq_iff_eq.mp heq] at hless
    exact Std.lt_irrefl hless

/-- A request finds a row of the bus table exactly if it goes to a valid bus. -/
theorem reaches_iff {q : Request} :
    s.Reaches q ↔ ∃ i, (q.busName.bind s.busNamed?).bind s.busIndex? = some i := by
  constructor
  · rintro ⟨b, hb, hname, hvalid⟩
    obtain ⟨r, hr⟩ := exists_bus?_of_mem hb
    obtain ⟨i, hi⟩ := exists_busIndex? (busValid_iff.mpr ⟨b, hr, hvalid⟩)
    refine ⟨i, ?_⟩
    rw [hname, Option.bind_some, s.busNamed?_eq_some_iff.mpr ⟨b, hr, rfl⟩, Option.bind_some, hi]
  · rintro ⟨i, hi⟩
    obtain ⟨r, hr, hi⟩ := Option.bind_eq_some_iff.mp hi
    obtain ⟨name, hname, hr⟩ := Option.bind_eq_some_iff.mp hr
    obtain ⟨b, hb, rfl⟩ := s.busNamed?_eq_some_iff.mp hr
    obtain ⟨b', hb', hvalid⟩ := busValid_iff.mp (exists_busIndex?_iff.mp ⟨i, hi⟩)
    obtain rfl := Option.some.inj (hb.symm.trans hb')
    exact ⟨b, mem_of_bus? hb, hname, hvalid⟩

/-- Only an enabled request to no valid bus stops the tables of a set. -/
theorem refuses_of_placeRequest {q : Request} (hq : q ∈ s.activeRequests)
    {fault : Fault} (herror : (s.placeRequest q).outcome = .error fault) : s.Refuses fault := by
  obtain ⟨hmem, enabled⟩ := mem_activeRequests_iff.mp hq
  rw [placeRequest_outcome] at herror
  split at herror
  · next hnone =>
    cases herror
    refine .reaches hmem enabled fun hreaches => ?_
    obtain ⟨i, hi⟩ := s.reaches_iff.mp hreaches
    cases hnone.symm.trans hi
  · cases herror

/-- The tables of a fit set are refused for one of the two reasons only. -/
theorem refuses_of_tables (fit : s.isFit = true) {index : Nat} {fault : Fault}
    (herror : (s.tables index).outcome = .error fault) : s.Refuses fault := by
  rw [tables_outcome, Except.bind_eq_error_iff] at herror
  rcases herror with hsignals | ⟨signals, -, herror⟩
  · rw [placedSignals, Except.map_eq_error_iff] at hsignals
    obtain ⟨entry, hentry, herror⟩ := Except.exists_of_mapM_eq_error hsignals
    exact s.refuses_of_placedSignal? fit hentry herror
  · rcases Except.bind_eq_error_iff.mp herror with hrequests | ⟨requests, -, herror⟩
    · rw [Run.outcome_mapM] at hrequests
      obtain ⟨q, hq, herror⟩ := Except.exists_of_mapM_eq_error hrequests
      exact s.refuses_of_placeRequest hq herror
    · cases herror

/-- A set whose tables are made had a place for all that is enabled. -/
theorem placeable_of_tables {index : Nat} {t : SetTables}
    (hrun : (s.tables index).outcome = .ok t) : s.Placeable where
  first_bit r x m hx enabled hm hinverted := by
    obtain ⟨-, hagrees⟩ := s.tables_agree hrun
    obtain ⟨row, hrow, rfl⟩ := List.mem_map.mp ((hagrees.mem_signals_iff r).mpr enabled)
    obtain rfl := Option.some.inj (hx.symm.trans (hagrees.signal_row row hrow))
    obtain ⟨hfirst, hsize⟩ := hagrees.signal_bits row hrow
    -- The position of a row is one that was turned around, so there was one to turn around.
    cases hposition : row.signal.bitPosition with
    | none =>
      rw [signalPosition, hposition] at hfirst
      cases hfirst
    | some position =>
      rw [signalPosition_of_complete hposition hsize, (signalInverted_iff hm).mpr hinverted,
        if_pos rfl, Except.map_eq_ok_iff] at hfirst
      obtain ⟨first, hfirst, -⟩ := hfirst
      exact ⟨position, row.bitSize, first, rfl, hsize, hfirst⟩
  reaches q hq enabled := by
    obtain ⟨messages, signals, requests, -, -, hrequests, -⟩ := tables_eq_ok hrun
    rw [Run.outcome_mapM, Except.mapM_eq_ok_iff] at hrequests
    obtain ⟨row, -, hrow⟩ :=
      exists_right_of_forall₂ hrequests (mem_activeRequests_iff.mpr ⟨hq, enabled⟩)
    rw [placeRequest_outcome] at hrow
    split at hrow
    · cases hrow
    · next i hi => exact s.reaches_iff.mpr ⟨i, hi⟩

end SoundSet

/-! ## Sets that are compiled together -/

namespace Tables

open MessageSet

theorem refuses_of_planFrom {sets : List SoundSet} (fit : ∀ s ∈ sets, s.isFit = true) {index : Nat}
    {fault : Fault}
    (herror : (planFrom index (sets.map SoundSet.toMessageSet)).outcome = .error fault) :
    ∃ s ∈ sets, s.Refuses fault := by
  induction sets generalizing index with
  | nil => cases herror
  | cons s rest ih =>
    obtain ⟨hfit, hfits⟩ := List.forall_mem_cons.mp fit
    rw [List.map_cons, planFrom, Run.outcome_bind, Except.bind_eq_error_iff] at herror
    rcases herror with herror | ⟨t, -, herror⟩
    · exact ⟨s, List.mem_cons_self, s.refuses_of_tables hfit herror⟩
    · rw [Run.outcome_bind, Except.bind_eq_error_iff] at herror
      rcases herror with herror | ⟨others, -, herror⟩
      · obtain ⟨s', hs', hrefuses⟩ := ih hfits herror
        exact ⟨s', List.mem_cons_of_mem _ hs', hrefuses⟩
      · cases herror

section Sound

variable {sets : List SoundSet}

theorem refuses_of_ofSets (fit : ∀ s ∈ sets, s.isFit = true) {fault : Fault}
    (herror : (ofSets (sets.map SoundSet.toMessageSet)).outcome = .error fault) :
    ∃ s ∈ sets, s.Refuses fault := by
  rw [ofSets, ordered_soundSets, Run.outcome_bind, Except.bind_eq_error_iff] at herror
  rcases herror with herror | ⟨planned, -, herror⟩
  · obtain ⟨s, hs, hrefuses⟩ :=
      refuses_of_planFrom (fun s hs => fit s (mem_sortBy.mp hs)) herror
    exact ⟨s, mem_sortBy.mp hs, hrefuses⟩
  · cases herror

theorem placeable_of_ofSets {t : Tables}
    (hrun : (ofSets (sets.map SoundSet.toMessageSet)).outcome = .ok t) :
    ∀ s ∈ sets, s.Placeable := by
  obtain ⟨planned, hplanned, -⟩ := Run.bind_outcome_eq_ok_iff.mp hrun
  intro s hs
  obtain ⟨t, -, ht⟩ := exists_left_of_forall₂ (planFrom_tables hplanned).1
    (mem_sortBy.mpr (List.mem_map_of_mem hs))
  exact s.placeable_of_tables ht

end Sound

variable {sets : List MessageSet}

/-- The check says no exactly if a set has no name or a signal of a message on a valid bus lacks its
place.  Once it says yes to all sets, their tables can be made exactly if all enabled signals have a
first bit and all enabled requests go to a valid bus; otherwise what is reported is about such a
signal or request, and never that a set is unfit. -/
theorem ofSets_of_checked (assembled : ∀ s ∈ sets,
      ∃ (c : Catalog) (settings : Settings) (name : String),
        (c.assemble settings name).outcome = .ok s) :
    (∀ s ∈ sets,
      (s.check.outcome = .ok false ↔ s.name = "" ∨ s.Incomplete) ∧
        (s.check.outcome = .ok true ↔ ¬ (s.name = "" ∨ s.Incomplete))) ∧
      ((∀ s ∈ sets, s.check.outcome = .ok true) →
        ((∃ t, (ofSets sets).outcome = .ok t) ↔ ∀ s ∈ sets, s.Placeable) ∧
          ∀ fault, (ofSets sets).outcome = .error fault →
            (∃ s ∈ sets, s.Refuses fault) ∧ ∀ name, fault ≠ .invalidSet name) := by
  obtain ⟨sets, rfl⟩ := Catalog.exists_soundSets assembled
  simp only [List.forall_mem_map]
  refine ⟨fun s hs => ?_, fun checked => ?_⟩
  · rw [check_outcome, Except.ok.injEq, Except.ok.injEq, ← s.isFit_eq_false_iff,
      Bool.not_eq_false]
    exact ⟨Iff.rfl, Iff.rfl⟩
  · have fit : ∀ s ∈ sets, s.isFit = true := fun s hs => Except.ok.inj (checked s hs)
    refine ⟨⟨fun ⟨t, ht⟩ => placeable_of_ofSets ht, fun placeable => ?_⟩, fun fault herror => ?_⟩
    · cases hrun : (ofSets (sets.map SoundSet.toMessageSet)).outcome with
      | ok t => exact ⟨t, rfl⟩
      | error fault =>
        obtain ⟨s, hs, hrefuses⟩ := refuses_of_ofSets fit hrun
        exact absurd (placeable s hs) hrefuses.not_placeable
    · obtain ⟨s, hs, hrefuses⟩ := refuses_of_ofSets fit herror
      refine ⟨⟨s, List.mem_map_of_mem hs, hrefuses⟩, fun name heq => ?_⟩
      rw [heq] at hrefuses
      cases hrefuses

/-- A message whose bits are numbered the inverted way, with a signal that has a first bit and one,
enabled or not, that has none; and two requests, of which the one without a bus is disabled. -/
def invertedSignals (enabled : String) : Catalog := Catalog.ofFiles [
  ("base.json", Catalog.objectText [
    ("buses", Catalog.objectText [
      ("hs", Catalog.objectText [("controller", "1"), ("speed", "1")])]),
    ("diagnostic_messages", "[" ++ ", ".intercalate [
      Catalog.objectText [("bus", "\"hs\""), ("id", "2015"), ("mode", "1"), ("frequency", "1")],
      Catalog.objectText [
        ("id", "2016"), ("mode", "1"), ("frequency", "1"), ("enabled", "false")]] ++ "]")]),
  ("set.json", Catalog.objectText [
    ("parents", "[\"base.json\"]"),
    ("messages", Catalog.objectText [("0x10", Catalog.objectText [
      ("bus", "\"hs\""), ("bit_numbering_inverted", "true"),
      ("signals", Catalog.objectText [
        ("door", Catalog.objectText [
          ("bit_position", "0"), ("bit_size", "12"), ("enabled", enabled)]),
        ("gear", Catalog.objectText [("bit_position", "0"), ("bit_size", "4")])])])])])]

theorem ofSets_of_checked_invertedSignals : ∃ s s' t,
    ((invertedSignals "false").assemble .usual "set.json").outcome = .ok s ∧
      ((invertedSignals "true").assemble .usual "set.json").outcome = .ok s' ∧
      (s.check.outcome = .ok true ∧ s'.check.outcome = .ok true) ∧
      ((ofSets [s]).outcome = .ok t ∧ t.maxSignalCount = 1 ∧ s.Placeable) ∧
      (ofSets [s']).outcome.toOption = none ∧ ¬ s'.Placeable := by
  have hdisabled : ((invertedSignals "false").assemble .usual "set.json").outcome.toOption.any
      (fun s => s.isFit && (ofSets [s]).outcome.toOption.any fun t => t.maxSignalCount = 1) =
        true := by
    decide +kernel
  have henabled : ((invertedSignals "true").assemble .usual "set.json").outcome.toOption.any
      (fun s => s.isFit && (ofSets [s]).outcome.toOption.isNone) = true := by
    decide +kernel
  obtain ⟨s, hs, hany⟩ := Except.exists_of_any_toOption hdisabled
  obtain ⟨s', hs', hrefused⟩ := Except.exists_of_any_toOption henabled
  obtain ⟨hfit, hany⟩ := Bool.and_eq_true_iff.mp hany
  obtain ⟨hfit', hnone⟩ := Bool.and_eq_true_iff.mp hrefused
  obtain ⟨t, ht, hcount⟩ := Except.exists_of_any_toOption hany
  have hplaced := (@ofSets_of_checked [s] (List.forall_mem_singleton.mpr
    ⟨_, _, _, hs⟩)).2 (List.forall_mem_singleton.mpr (congrArg Except.ok hfit))
  have hrefused := (@ofSets_of_checked [s'] (List.forall_mem_singleton.mpr
    ⟨_, _, _, hs'⟩)).2 (List.forall_mem_singleton.mpr (congrArg Except.ok hfit'))
  refine ⟨s, s', t, hs, hs', ⟨congrArg Except.ok hfit, congrArg Except.ok hfit'⟩,
    ⟨ht, of_decide_eq_true hcount, hplaced.1.mp ⟨t, ht⟩ s List.mem_cons_self⟩,
    Option.isNone_iff_eq_none.mp hnone, fun hplaceable => ?_⟩
  obtain ⟨t', ht'⟩ := hrefused.1.mpr (List.forall_mem_singleton.mpr hplaceable)
  rw [ht'] at hnone
  cases hnone

end Tables

end CanTables
