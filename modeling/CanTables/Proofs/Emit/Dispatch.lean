import CanTables.Proofs.Emit.Blocks
import CanTables.Proofs.Identifier
import CanTables.Proofs.Tables.Compiled
import Mathlib.Data.List.Pairwise

/-!
# CanTables.Proofs.Emit.Dispatch — the decoder covers the signal table

The decoder is written bus by bus and message by message, from the message table; the signal table
was numbered in another pass.  Both fit: read back from the emitted lines, the calls in the case of
a set are those of its signal rows, each once and in order, and each stands in the case of its
message's bus under the identifier of its message (`Tables.decoder_covers`).

What is read back are emitted lines, not the lines of the text that they are put together to: these
are more if a handler or a name in a comment holds a line end (`Emit.codeParts_sectionsOf`).
-/

namespace CanTables

open Emit Firmware Positions Sorting

/-! ## What is read back -/

/-- A call is that of the signal row at a position, in the case of its message's bus and under the
identifier of its message. -/
def Emit.Firmware.CallPlace.IsOf (t : SetTables) (place : CallPlace) (entry : SignalRow × Nat) :
    Prop :=
  ∃ message bus, t.messages[entry.1.messageIndex]? = some message ∧
    message.ref = entry.1.signal.message ∧ t.buses[message.busIndex]? = some bus ∧
    message.message.bus = some bus.ref ∧
    place = ⟨message.busIndex, busLabel bus.controller,
      caseLabel message.message.id message.message.label,
      callLine t.index entry.2 entry.1.signal.name⟩

/-- Lines in the case of a set decode the signals of its tables. -/
structure SetTables.Decodes (t : SetTables) (body : List Line) : Prop where
  /-- The calls are those of the first signal row, the second, and so on. -/
  calls : calls body = t.signals.zipIdx.map fun entry =>
    callLine t.index entry.2 entry.1.signal.name
  places : List.Forall₂ (CallPlace.IsOf t) (callPlaces body) t.signals.zipIdx
  buses : (blocks "        " body).map Prod.fst = t.buses.map fun bus => busLabel bus.controller
  labels_distinct : ∀ bus ∈ blocks "        " body,
    ((blocks "            " bus.2).map fun case => case.1.code).Nodup
  /-- A message has a case on its bus if it has a signal row or a handler. -/
  case_iff : ∀ row ∈ t.messages, ∃ bus, (blocks "        " body)[row.busIndex]? = some bus ∧
    (caseCode row.message.id ∈ ((blocks "            " bus.2).map fun case => case.1.code) ↔
      (∃ signal ∈ t.signals, t.messages[signal.messageIndex]? = some row) ∨
        row.message.handlers ≠ [])

/-! ## Rows bus by bus -/

namespace SetTables

variable {t : SetTables} {s : MessageSet}

/-- The message rows of the first bus are followed by those of the second, and so on. -/
theorem MessagesAgree.flatMap_messagesOn (h : t.MessagesAgree s) :
    (List.range t.buses.length).flatMap t.messagesOn = t.messages := by
  have hsorted : sortBy (byKey MessageRow.busIndex) t.messages = t.messages := by
    rw [sortBy_eq_insertionSort]
    refine List.Pairwise.insertionSort_eq (h.messages_sorted.imp fun hab => ?_)
    rw [byKey, Bool.not_eq_true', decide_eq_false_iff_not, Nat.not_lt]
    rcases hab with hlt | ⟨heq, -⟩
    · exact Nat.le_of_lt hlt
    · exact Nat.le_of_eq heq
  have hcovers : ∀ row ∈ t.messages, row.busIndex ∈ List.range t.buses.length := by
    intro row hrow
    obtain ⟨bus, hbus, -⟩ := h.message_bus row hrow
    exact List.mem_range.mpr (List.getElem?_eq_some_iff.mp hbus).1
  exact (sortBy_eq_flatMap _ List.pairwise_lt_range hcovers).symm.trans hsorted

/-- Message rows on one bus have different identifiers. -/
theorem MessagesAgree.ids_distinct (h : t.MessagesAgree s) :
    t.messages.Pairwise fun a b => a.busIndex = b.busIndex → a.message.id ≠ b.message.id := by
  refine h.messages_sorted.imp fun hab hbus hid => ?_
  rcases hab with hlt | ⟨-, hlt⟩
  · exact Nat.ne_of_lt hlt hbus
  · exact Std.lt_irrefl (hid ▸ hlt)

/-- On one bus a message row is known by its identifier. -/
theorem MessagesAgree.eq_of_id (h : t.MessagesAgree s) {row row' : MessageRow}
    (hrow : row ∈ t.messages) (hrow' : row' ∈ t.messages) (bus : row.busIndex = row'.busIndex)
    (id : row.message.id = row'.message.id) : row = row' := by
  by_contra hne
  have symm : Std.Symm fun a b : MessageRow =>
      a.busIndex = b.busIndex → a.message.id ≠ b.message.id :=
    ⟨fun a b hab hbus => (hab hbus.symm).symm⟩
  exact h.ids_distinct.forall hrow hrow' hne bus id

theorem mem_messagesOn {row : MessageRow} {index : Nat} :
    row ∈ t.messagesOn index ↔ row ∈ t.messages ∧ row.busIndex = index := by
  rw [messagesOn, List.mem_filter, beq_iff_eq]

/-! ## Cases of messages -/

/-- A message row has a branch if it has signals or handlers, and the branch is about its
identifier. -/
theorem messageBranch?_eq_some_iff {row : MessageRow} {branch : MessageBranch} :
    messageBranch? t row = some branch ↔ (row.signals ≠ [] ∨ row.message.handlers ≠ []) ∧
      branch = ⟨row.message.id, row.message.label, row.message.handlers,
        row.signals.map fun k => ⟨k, ((t.signals[k]?).map (·.signal.name)).getD ""⟩⟩ := by
  unfold messageBranch?
  split
  · next hnone =>
    rw [Bool.and_eq_true, List.isEmpty_iff, List.isEmpty_iff] at hnone
    refine iff_of_false (fun h => by cases h) ?_
    rintro ⟨hsignals | hhandlers, -⟩
    · exact hsignals hnone.1
    · exact hhandlers hnone.2
  · next hsome =>
    rw [Bool.and_eq_true, List.isEmpty_iff, List.isEmpty_iff, not_and_or] at hsome
    rw [Option.some.injEq, eq_comm (b := branch)]
    exact (and_iff_right hsome).symm

/-! ## Calls in the order of the message table -/

theorem zipIdx_dispatch (t : SetTables) :
    (dispatch t).zipIdx = t.buses.zipIdx.map fun entry =>
      (busBranch t entry.2 entry.1, entry.2) := by
  have hzip : ∀ (rows : List BusRow) (k : Nat),
      (rows.zipIdx k).zipIdx k = (rows.zipIdx k).map fun entry => (entry, entry.2) := by
    intro rows
    induction rows with
    | nil => exact fun _ => rfl
    | cons row rest ih => exact fun k => congrArg (((row, k), k) :: ·) (ih (k + 1))
  rw [dispatch, List.zipIdx_map, hzip, List.map_map]
  rfl

/-- The place of the call of a signal of a message row. -/
def placeOf (t : SetTables) (row : MessageRow) (index : Nat) : CallPlace where
  bus := row.busIndex
  busLine := busLabel (((t.buses[row.busIndex]?).map BusRow.controller).getD 0)
  caseLine := caseLabel row.message.id row.message.label
  call := callLine t.index index (((t.signals[index]?).map (·.signal.name)).getD "")

/-- Rows without a branch have no signals, so nothing is lost. -/
theorem flatMap_messageBranch? {β : Type} (t : SetTables) (rows : List MessageRow)
    (f : UInt32 → String → SignalCall → β) :
    (rows.filterMap (messageBranch? t)).flatMap (fun m => m.signalCalls.map (f m.id m.label)) =
      rows.flatMap fun row => row.signals.map fun k =>
        f row.message.id row.message.label ⟨k, ((t.signals[k]?).map (·.signal.name)).getD ""⟩ := by
  induction rows with
  | nil => rfl
  | cons row rest ih =>
    rw [List.flatMap_cons, List.filterMap_cons]
    cases hbranch : messageBranch? t row with
    | none =>
      have hsignals : row.signals = [] := by
        by_contra hne
        cases hbranch.symm.trans (messageBranch?_eq_some_iff.mpr ⟨.inl hne, rfl⟩)
      rw [hsignals]
      exact ih
    | some branch =>
      obtain ⟨-, rfl⟩ := messageBranch?_eq_some_iff.mp hbranch
      dsimp only
      rw [List.flatMap_cons, ih, List.map_map]
      rfl

/-- The calls are emitted in the order of the message table: bus by bus, since its rows are grouped
by bus. -/
theorem MessagesAgree.callPlaces_eq (h : t.MessagesAgree s) : callPlaces (setBody t) =
    (t.messages.flatMap fun row => row.signals.map fun k => (row, k)).map fun entry =>
      placeOf t entry.1 entry.2 := by
  have hbus : ∀ entry ∈ t.buses.zipIdx, (busBranch t entry.2 entry.1).messages.flatMap (fun m =>
      m.signalCalls.map fun call => (⟨entry.2, busLabel entry.1.controller, caseLabel m.id m.label,
        callLine t.index call.signalIndex call.name⟩ : CallPlace)) =
      (t.messagesOn entry.2).flatMap fun row => row.signals.map (placeOf t row) := by
    rintro ⟨bus, index⟩ hentry
    have hget := List.mk_mem_zipIdx_iff_getElem?.mp hentry
    refine (flatMap_messageBranch? t (t.messagesOn index) fun id label call =>
      (⟨index, busLabel bus.controller, caseLabel id label,
        callLine t.index call.signalIndex call.name⟩ : CallPlace)).trans ?_
    refine List.flatMap_congr fun row hrow => ?_
    obtain ⟨-, rfl⟩ := mem_messagesOn.mp hrow
    refine List.map_congr_left fun k _ => ?_
    rw [placeOf, hget]
    rfl
  have hrange : t.buses.zipIdx.map Prod.snd = List.range t.buses.length := by
    rw [List.zipIdx_map_snd, List.range_eq_range']
  rw [callPlaces_setBody, zipIdx_dispatch, List.flatMap_map]
  refine (List.flatMap_congr hbus).trans ?_
  rw [List.map_flatMap, ← h.flatMap_messagesOn, List.flatMap_assoc, ← hrange, List.flatMap_map]
  simp only [List.map_map, Function.comp_def]

/-! ## The case of a set -/

theorem blocks_setBody_getElem? {index : Nat} {bus : BusRow} (h : t.buses[index]? = some bus) :
    (blocks "        " (setBody t))[index]? =
      some (busLabel bus.controller, busBody t.index (busBranch t index bus)) := by
  rw [blocks_setBody, dispatch, List.map_map, List.getElem?_map, List.getElem?_zipIdx, h]
  simp only [Option.map_some, Nat.zero_add, Function.comp_apply]
  rfl

theorem caseCode_injective : Function.Injective caseCode := by
  intro a b h
  have hcode : "            case " ++ (hex a ++ ":") = "            case " ++ (hex b ++ ":") :=
    String.append_assoc.symm.trans (h.trans String.append_assoc)
  have hhex := (String.append_left_inj _).mp ((String.append_right_inj _).mp hcode)
  exact Identifier.key_injective hhex

/-- The labels of the cases of a bus spell the identifiers of its messages that have a branch. -/
theorem caseCodes_busBody (t : SetTables) (index : Nat) (bus : BusRow) :
    ((blocks "            " (busBody t.index (busBranch t index bus))).map fun case =>
      case.1.code) = (((t.messagesOn index).filterMap (messageBranch? t)).map (·.id)).map caseCode := by
  rw [blocks_busBody, List.map_map, List.map_map]
  rfl

namespace Agrees

variable (h : t.Agrees s)

include h

/-- Every listed signal row is one of the rows. -/
theorem exists_signal {row : MessageRow} {k : Nat} (hrow : row ∈ t.messages)
    (hk : k ∈ row.signals) : ∃ signal, t.signals[k]? = some signal := by
  have hmem : k ∈ t.messages.flatMap (·.signals) := List.mem_flatMap.mpr ⟨row, hrow, hk⟩
  rw [h.signals_tile, List.mem_range] at hmem
  exact ⟨_, List.getElem?_eq_getElem hmem⟩

/-- A message row lists signal rows if and only if one refers to it. -/
theorem signals_ne_nil_iff {row : MessageRow} (hrow : row ∈ t.messages) :
    row.signals ≠ [] ↔ ∃ signal ∈ t.signals, t.messages[signal.messageIndex]? = some row := by
  constructor
  · intro hne
    obtain ⟨k, hk⟩ := List.exists_mem_of_ne_nil _ hne
    obtain ⟨signal, hsignal⟩ := h.exists_signal hrow hk
    obtain ⟨j, hj⟩ := List.mem_iff_getElem?.mp hrow
    refine ⟨signal, List.mem_of_getElem? hsignal, ?_⟩
    rw [(h.messageIndex_eq_iff j k row signal hj hsignal).mpr hk]
    exact hj
  · rintro ⟨signal, hmem, hrefers⟩
    obtain ⟨k, hk⟩ := List.mem_iff_getElem?.mp hmem
    have hlisted := (h.messageIndex_eq_iff _ k row signal hrefers hk).mp rfl
    exact List.ne_nil_of_mem hlisted

/-- A call of a listed signal row stands where it belongs. -/
theorem placeOf_isOf {row : MessageRow} {signal : SignalRow} {k : Nat} (hrow : row ∈ t.messages)
    (hk : k ∈ row.signals) (hsignal : t.signals[k]? = some signal) :
    (placeOf t row k).IsOf t (signal, k) := by
  obtain ⟨j, hj⟩ := List.mem_iff_getElem?.mp hrow
  have hindex := (h.messageIndex_eq_iff j k row signal hj hsignal).mpr hk
  obtain ⟨message, hmessage, href⟩ := h.signal_message signal (List.mem_of_getElem? hsignal)
  rw [hindex, hj] at hmessage
  cases hmessage
  obtain ⟨bus, hbus, hown⟩ := h.message_bus row hrow
  refine ⟨row, bus, hindex.symm ▸ hj, href, hbus, hown, ?_⟩
  rw [placeOf, hbus, hsignal]
  rfl

theorem callPlaces_isOf :
    List.Forall₂ (CallPlace.IsOf t) (callPlaces (setBody t)) t.signals.zipIdx := by
  -- The message table lists the signal rows in their order, so both lists count the same numbers.
  have hnumbers : List.Forall₂ (fun listed entry => listed.2 = entry.2)
      (t.messages.flatMap fun row => row.signals.map fun k => (row, k)) t.signals.zipIdx := by
    refine List.forall₂_map_left_iff.mp (List.forall₂_map_right_iff.mp ?_)
    rw [List.forall₂_eq_eq_eq, List.zipIdx_map_snd, ← List.range_eq_range', ← h.signals_tile,
      List.map_flatMap]
    simp only [List.map_map, Function.comp_def, List.map_id']
  rw [h.callPlaces_eq, List.forall₂_map_left_iff]
  refine forall₂_of_mem hnumbers ?_
  rintro ⟨row, k⟩ ⟨signal, k'⟩ hlisted hentry heq
  obtain rfl : k = k' := heq
  obtain ⟨row', hrow, hlisted⟩ := List.mem_flatMap.mp hlisted
  obtain ⟨k', hk, heq⟩ := List.mem_map.mp hlisted
  cases heq
  exact h.placeOf_isOf hrow hk (List.mk_mem_zipIdx_iff_getElem?.mp hentry)

theorem caseCodes_nodup (index : Nat) :
    (((t.messagesOn index).filterMap (messageBranch? t)).map (·.id)).Nodup := by
  have hapart : (t.messagesOn index).Pairwise fun a b => a.message.id ≠ b.message.id := by
    refine (List.Pairwise.filter _ h.ids_distinct).imp_of_mem fun ha hb hne => hne ?_
    exact (mem_messagesOn.mp ha).2.trans (mem_messagesOn.mp hb).2.symm
  refine List.pairwise_map.mpr (List.pairwise_filterMap.mpr (hapart.imp fun hne a ha b hb => ?_))
  obtain ⟨-, rfl⟩ := messageBranch?_eq_some_iff.mp ha
  obtain ⟨-, rfl⟩ := messageBranch?_eq_some_iff.mp hb
  exact hne

/-- A message has a case on its bus if and only if it has a branch. -/
theorem mem_caseCodes_iff {row : MessageRow} (hrow : row ∈ t.messages) :
    caseCode row.message.id ∈
        (((t.messagesOn row.busIndex).filterMap (messageBranch? t)).map (·.id)).map caseCode ↔
      row.signals ≠ [] ∨ row.message.handlers ≠ [] := by
  rw [List.mem_map_of_injective caseCode_injective, List.mem_map]
  constructor
  · rintro ⟨branch, hbranch, hid⟩
    obtain ⟨row', hrow', hbranch⟩ := List.mem_filterMap.mp hbranch
    obtain ⟨hmem, hbus⟩ := mem_messagesOn.mp hrow'
    obtain ⟨hhas, rfl⟩ := messageBranch?_eq_some_iff.mp hbranch
    -- The row that the case was made for is this one: no other has its identifier on its bus.
    cases h.eq_of_id hmem hrow hbus hid
    exact hhas
  · intro hhas
    exact ⟨_, List.mem_filterMap.mpr ⟨row, mem_messagesOn.mpr ⟨hrow, rfl⟩,
      messageBranch?_eq_some_iff.mpr ⟨hhas, rfl⟩⟩, rfl⟩

/-- The case of a set decodes the signals of its tables. -/
theorem decodes : t.Decodes (setBody t) where
  calls := by
    rw [calls_setBody]
    refine (MessageSet.map_eq_of_forall₂ h.callPlaces_isOf fun place entry hplace => ?_).symm
    obtain ⟨message, bus, -, -, -, -, rfl⟩ := hplace
    rfl
  places := h.callPlaces_isOf
  buses := by
    rw [blocks_setBody, dispatch, List.map_map, List.map_map]
    conv_rhs => rw [← List.zipIdx_map_fst 0 t.buses, List.map_map]
    rfl
  labels_distinct bus hbus := by
    obtain ⟨index, hindex⟩ := List.mem_iff_getElem?.mp hbus
    obtain ⟨row, hrow⟩ : ∃ row, t.buses[index]? = some row := by
      have hlt := (List.getElem?_eq_some_iff.mp hindex).1
      rw [blocks_setBody, dispatch, List.length_map, List.length_map, List.length_zipIdx] at hlt
      exact ⟨_, List.getElem?_eq_getElem hlt⟩
    cases hindex.symm.trans (blocks_setBody_getElem? hrow)
    rw [caseCodes_busBody]
    exact (h.caseCodes_nodup index).map caseCode_injective
  case_iff row hrow := by
    obtain ⟨bus, hbus, -⟩ := h.message_bus row hrow
    refine ⟨_, blocks_setBody_getElem? hbus, ?_⟩
    rw [caseCodes_busBody, h.mem_caseCodes_iff hrow, h.signals_ne_nil_iff hrow]

end Agrees

end SetTables

/-! ## The decoder of sets that are compiled together -/

namespace Tables

/-- Whenever the tables of assembled sets can be made, the decoder has one case for each set, and in
the case of a set it decodes each of the set's signal rows once and where it belongs.  This is about
the lines that are emitted; for line ends inside of names see `Emit.codeParts_sectionsOf`. -/
theorem decoder_covers {sets : List MessageSet} {t : Tables}
    (assembled : ∀ s ∈ sets, ∃ (c : Catalog) (settings : Settings) (name : String),
      (c.assemble settings name).outcome = .ok s)
    (h : (ofSets sets).outcome = .ok t) {i : Nat} {set : SetTables} (hset : t.sets[i]? = some set) :
    ∃ body, (blocks "    " (decoder t))[i]? =
        some (Line.noted ("    case " ++ number i ++ ":") (setNote set), body) ∧
      set.Decodes body := by
  obtain ⟨hindex, s, -, hagrees⟩ := agrees_of_getElem? assembled h hset
  refine ⟨setBody set, ?_, hagrees.decodes⟩
  rw [blocks_decoder, List.getElem?_map, hset, ← hindex]
  rfl

theorem decoder_covers_layered : ∃ s t set body,
    (Catalog.layered.assemble .usual "child.json").outcome = .ok s ∧
      (ofSets [s, s]).outcome = .ok t ∧ (t.sets[1]? = some set ∧ set.signals.length = 2) ∧
      (blocks "    " (decoder t))[1]? =
        some (Line.noted ("    case " ++ number 1 ++ ":") (setNote set), body) ∧
      set.Decodes body := by
  have hany : (Catalog.layered.assemble .usual "child.json" >>= fun s =>
      ofSets [s, s]).outcome.toOption.any (fun t =>
        t.sets[1]?.any fun set => set.signals.length = 2) = true := by
    decide +kernel
  obtain ⟨t, h, hset⟩ := Except.exists_of_any_toOption hany
  obtain ⟨s, hs, ht⟩ := Run.bind_outcome_eq_ok_iff.mp h
  obtain ⟨set, hset, hlength⟩ := (Option.any_eq_true _ _).mp hset
  have assembled : ∃ (c : Catalog) (settings : Settings) (name : String),
      (c.assemble settings name).outcome = .ok s := ⟨Catalog.layered, .usual, "child.json", hs⟩
  obtain ⟨body, hcase, hdecodes⟩ := decoder_covers
    (List.forall_mem_cons.mpr ⟨assembled, List.forall_mem_singleton.mpr assembled⟩) ht hset
  exact ⟨s, t, set, body, hs, ht, ⟨hset, of_decide_eq_true hlength⟩, hcase, hdecodes⟩

end Tables

end CanTables
