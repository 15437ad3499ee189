import CanTables.Proofs.Assembly.Drafts
import CanTables.Proofs.Assembly.Lineage
import CanTables.Proofs.Identifier

/-!
# CanTables.Proofs.Assembly.Statement — what a message object says

A message object under its key says everything that its fields say: an attribute that is absent or
null says nothing, and a field for which the schema has no use is refused.  `Call.said` gives what an
object says as a function of the object alone, and an object that is accepted says just that
(`Statement.read_object_eq_ok`).
-/

namespace CanTables

open Declaration Document Positions Schema

/-! ## Message objects -/

/-- A message object under its key. -/
abbrev Call := String × Value

namespace Call

/-- The fields of the object. -/
def fields (c : Call) : Fields := c.2.fields?.getD []

/-- The identifier that the key spells. -/
def id (c : Call) : UInt32 := (Identifier.parse? c.1).getD 0

/-- What the object says about the attributes of the message. -/
def attributes (c : Call) : MessageLayer := Layer.ofFields (Keyed.erase c.fields "signals")

/-- What the object says about signals, in the order of their names. -/
def signals (c : Call) : List (String × SignalLayer) :=
  (((c.fields.get? "signals").bind Value.fields?).getD []).filterMap fun entry =>
    (Layer.read entry.2).toOption.map fun layer => (entry.1, layer)

/-- What the object says. -/
def said (c : Call) : Statement := ⟨c.id, c.attributes, c.signals⟩

end Call

namespace Statement

theorem readSignal_eq_ok {key : String} {entry : String × Value} {said : String × SignalLayer}
    (h : readSignal key entry = .ok said) :
    said.1 = entry.1 ∧ Layer.read entry.2 = .ok said.2 := by
  have hlast : ∀ {layer : SignalLayer}, readRecord Layer.read
      ("signal " ++ entry.1 ++ " of message " ++ key) entry.2 = .ok layer →
      (Pure.pure (entry.1, layer) : Except Fault _) = .ok said →
      said.1 = entry.1 ∧ Layer.read entry.2 = .ok said.2 := by
    intro layer hlayer hsaid
    cases hsaid
    exact ⟨rfl, readRecord_eq_ok_iff.mp hlayer⟩
  unfold readSignal at h
  dsimp only at h
  split at h
  · obtain ⟨-, -, h⟩ := Except.bind_eq_ok_iff.mp h
    obtain ⟨layer, hlayer, hsaid⟩ := Except.bind_eq_ok_iff.mp h
    exact hlast hlayer hsaid
  · obtain ⟨layer, hlayer, hsaid⟩ := Except.bind_eq_ok_iff.mp h
    exact hlast hlayer hsaid

/-- The signals that an accepted object says something about are those that it has fields for. -/
theorem signals_of_mapM {key : String} {entries : Fields} {said : List (String × SignalLayer)}
    (h : entries.mapM (readSignal key) = .ok said) :
    said = entries.filterMap fun entry =>
      (Layer.read entry.2).toOption.map fun layer => (entry.1, layer) := by
  have hentries := Except.mapM_eq_ok_iff.mp h
  clear h
  induction hentries with
  | nil => rfl
  | @cons entry signal rest rest' hsignal _ ih =>
    obtain ⟨hname, hlayer⟩ := readSignal_eq_ok hsignal
    have hsome : (Layer.read entry.2).toOption.map (fun layer => (entry.1, layer)) =
        some signal := by
      rw [hlayer, ← hname]
      rfl
    rw [List.filterMap_cons, hsome, ← ih]

/-- A statement is about the identifier that the key spells. -/
theorem id_of_read {key : String} {raw : Value} {said : Statement}
    (h : read key raw = .ok (some said)) {id : UInt32} (hid : identify key = .ok id) :
    said.id = id := by
  obtain ⟨id', hid', h⟩ := Except.bind_eq_ok_iff.mp h
  obtain rfl := Except.ok.inj (hid.symm.trans hid')
  split at h
  · obtain ⟨statement, hstatement, h⟩ := Except.bind_eq_ok_iff.mp h
    cases h
    obtain ⟨-, -, h⟩ := Except.bind_eq_ok_iff.mp hstatement
    obtain ⟨attributes, -, h⟩ := Except.bind_eq_ok_iff.mp h
    dsimp only at h
    split at h
    · cases h
      rfl
    · obtain ⟨entries, -, h⟩ := Except.bind_eq_ok_iff.mp h
      obtain ⟨signals, -, h⟩ := Except.bind_eq_ok_iff.mp h
      cases h
      rfl
  · obtain ⟨-, -, h⟩ := Except.bind_eq_ok_iff.mp h
    cases h

/-- An object that is accepted says what its fields say. -/
theorem read_object_eq_ok {c : Call} {fields : Fields} (hobject : c.2 = .object fields)
    {said : Option Statement} (h : read c.1 c.2 = .ok said) : said = some c.said := by
  obtain ⟨id, hid, h⟩ := Except.bind_eq_ok_iff.mp h
  rw [hobject] at h
  obtain ⟨statement, hstatement, h⟩ := Except.bind_eq_ok_iff.mp h
  cases h
  obtain ⟨-, -, h⟩ := Except.bind_eq_ok_iff.mp hstatement
  obtain ⟨attributes, hattributes, h⟩ := Except.bind_eq_ok_iff.mp h
  dsimp only at h
  have hfields : c.fields = fields := by rw [Call.fields, hobject]; rfl
  have hid' : c.id = id := by
    unfold identify at hid
    split at hid
    · next id' hparse =>
      cases hid
      rw [Call.id, hparse, Option.getD_some]
    · cases hid
  have hattributes' : c.attributes = attributes := by
    rw [Call.attributes, hfields]
    exact (Layer.read_object (readRecord_eq_ok_iff.mp hattributes)).symm
  have hstatement : statement = ⟨id, attributes, c.signals⟩ := by
    unfold Call.signals
    rw [hfields]
    split at h
    · next hnone =>
      rw [hnone]
      exact (Except.ok.inj h).symm
    · next raw hraw =>
      obtain ⟨entries, hentries, h⟩ := Except.bind_eq_ok_iff.mp h
      obtain ⟨signals, hsignals, h⟩ := Except.bind_eq_ok_iff.mp h
      rw [Reader.object_eq_ok (readRecord_eq_ok_iff.mp hentries)] at hraw
      rw [hraw]
      cases h
      exact congrArg (Statement.mk id attributes) (signals_of_mapM hsignals)
  rw [hstatement, Call.said, hid', hattributes']

end Statement

namespace Call

theorem id_said_key (id : UInt32) (v : Value) : (said (Identifier.key id, v)).id = id := by
  rw [said, Call.id]
  dsimp only
  rw [Identifier.parse?_key, Option.getD_some]

/-- An object says about an attribute what stands under its key, unless that is null. -/
theorem attributes_eq_some_iff {c : Call} {a : MessageAttribute} (ha : a ≠ .signals)
    {x : Record.Carrier a} :
    c.attributes a = some x ↔
      ∃ v, c.fields.get? (Record.key a) = some v ∧ v ≠ .null ∧ Record.read a v = .ok x := by
  have hkey : Record.key a ≠ "signals" := by
    cases a <;> first | exact absurd rfl ha | decide
  have hnull : Record.nullable a = true := by
    cases a <;> first | exact absurd rfl ha | rfl
  rw [attributes, Layer.ofFields, Keyed.get?_erase, if_neg hkey, Option.bind_eq_some_iff]
  refine exists_congr fun v => and_congr_right fun _ => ?_
  constructor
  · intro h
    have h := Layer.join_toOption_eq_some h
    refine ⟨?_, Layer.readAttribute_eq_some h⟩
    rintro rfl
    rw [Layer.readAttribute, if_pos hnull] at h
    cases h
  · rintro ⟨hne, hread⟩
    rw [Layer.readAttribute_of_ne_null hne, hread]
    rfl

end Call

/-! ## Runs of message objects -/

namespace Drafts

theorem add_object {c : Call} {fields : Fields} (hobject : c.2 = .object fields)
    {drafts drafts' : Drafts} :
    drafts.add c = .ok drafts' ↔
      Statement.read c.1 c.2 = .ok (some c.said) ∧ drafts' = drafts.join c.said := by
  constructor
  · intro h
    obtain ⟨said?, hread, h⟩ := Except.bind_eq_ok_iff.mp h
    obtain rfl := Statement.read_object_eq_ok hobject hread
    exact ⟨hread, (Except.ok.inj h).symm⟩
  · rintro ⟨hread, rfl⟩
    exact Except.bind_eq_ok_iff.mpr ⟨_, hread, rfl⟩

/-- Merging objects succeeds exactly when each of them is accepted, and then joins what they say. -/
theorem foldlM_add_eq_ok_iff {calls : List Call}
    (objects : ∀ c ∈ calls, ∃ fields, c.2 = .object fields) {drafts drafts' : Drafts} :
    calls.foldlM add drafts = .ok drafts' ↔
      (∀ c ∈ calls, Statement.read c.1 c.2 = .ok (some c.said)) ∧
        drafts' = (calls.map Call.said).foldl join drafts := by
  induction calls generalizing drafts with
  | nil =>
    rw [List.foldlM_nil, Except.pure_eq_ok, Except.ok.injEq]
    exact ⟨fun h => ⟨fun c hc => absurd hc List.not_mem_nil, h.symm⟩, fun h => h.2.symm⟩
  | cons c rest ih =>
    obtain ⟨⟨fields, hobject⟩, hrest⟩ := List.forall_mem_cons.mp objects
    rw [List.foldlM_cons, Except.bind_eq_ok_iff, List.forall_mem_cons]
    constructor
    · rintro ⟨joined, hadd, hfold⟩
      obtain ⟨hread, rfl⟩ := (add_object hobject).mp hadd
      obtain ⟨hreads, rfl⟩ := (ih hrest).mp hfold
      exact ⟨⟨hread, hreads⟩, rfl⟩
    · rintro ⟨⟨hread, hreads⟩, rfl⟩
      exact ⟨_, (add_object hobject).mpr ⟨hread, rfl⟩, (ih hrest).mpr ⟨hreads, rfl⟩⟩

end Drafts

end CanTables
