import CanTables.Assembly.Mapping
import CanTables.Proofs.Assembly.Keys
import CanTables.Proofs.Network.Layout

/-!
# CanTables.Proofs.Network.Import — a mapping over what a database says

What a database says about a mapping is collected message by message and signal by signal, and the
mapping is laid over it.  All that is asked of the database is the first signal of a name in the
first message with an identifier (`Database.lookup?`), and only for signals that the mapping refers
to.  So nothing else in the database matters, broken or not; and since the mapping comes on top and
every key of what is collected is a key of the mapping, the database adds attributes and neither
messages nor signals.

`Catalog.importUnder_of_database` says when this fails, what results, and what it depends on.
-/

namespace CanTables

open Document Value

namespace Network

/-! ## Collecting under keys -/

section Collect

variable {α : Type} {key : α → String} {g g' : α → Except Fault (Option Value)} {l : List α}

/-- What is found out about some things one after the other, each under its key. -/
def collect (key : α → String) (g : α → Except Fault (Option Value)) (l : List α) :
    Except Fault Fields :=
  (l.mapM fun a => (g a).map (Option.map (Prod.mk (key a)))).map (List.filterMap id)

theorem collect_cons (a : α) (rest : List α) : collect key g (a :: rest) =
    g a >>= fun v? => (collect key g rest).map ((v?.map (Prod.mk (key a))).toList ++ ·) := by
  rw [collect, List.mapM_cons, Except.map_bind, Except.bind_map, collect]
  refine congrArg (g a >>= ·) (funext fun v? => ?_)
  cases rest.mapM fun a => (g a).map (Option.map (Prod.mk (key a))) with
  | error fault => rfl
  | ok parts => cases v? <;> rfl

theorem collect_congr (h : ∀ a ∈ l, g a = g' a) : collect key g l = collect key g' l := by
  induction l with
  | nil => rfl
  | cons a rest ih =>
    obtain ⟨ha, hrest⟩ := List.forall_mem_cons.mp h
    rw [collect_cons, collect_cons, ha, ih hrest]

/-- Collecting succeeds exactly if everything can be found out, with what is known then. -/
theorem collect_eq_ok_iff {found : Fields} : collect key g l = .ok found ↔
    (∀ a ∈ l, ∃ v?, g a = .ok v?) ∧
      found = l.filterMap fun a => (g a).toOption.join.map (Prod.mk (key a)) := by
  induction l generalizing found with
  | nil =>
    rw [collect, List.mapM_nil, Except.pure_eq_ok]
    exact ⟨fun h => ⟨fun _ ha => absurd ha List.not_mem_nil, (Except.ok.inj h).symm⟩,
      fun h => congrArg Except.ok h.2.symm⟩
  | cons a rest ih =>
    rw [collect_cons, Except.bind_eq_ok_iff, List.forall_mem_cons, List.filterMap_cons]
    constructor
    · rintro ⟨v?, hv, h⟩
      obtain ⟨others, hothers, rfl⟩ := Except.map_eq_ok_iff.mp h
      obtain ⟨hrest, rfl⟩ := ih.mp hothers
      refine ⟨⟨⟨v?, hv⟩, hrest⟩, ?_⟩
      rw [hv]
      cases v? <;> rfl
    · rintro ⟨⟨⟨v?, hv⟩, hrest⟩, rfl⟩
      refine ⟨v?, hv, Except.map_eq_ok_iff.mpr ⟨_, ih.mpr ⟨hrest, rfl⟩, ?_⟩⟩
      rw [hv]
      cases v? <;> rfl

theorem exists_collect_iff : (∃ found, collect key g l = .ok found) ↔
    ∀ a ∈ l, ∃ v?, g a = .ok v? := by
  simp only [collect_eq_ok_iff, exists_and_left, exists_eq, and_true]

section Collected

variable {found : Fields} (h : collect key g l = .ok found)
include h

theorem keys_of_collect : found.keys.Sublist (l.map key) := by
  obtain ⟨-, rfl⟩ := collect_eq_ok_iff.mp h
  exact Keyed.keys_filterMap ..

theorem get?_of_collect (distinct : (l.map key).Nodup) {a : α} (ha : a ∈ l) {v? : Option Value}
    (hv : g a = .ok v?) : Keyed.get? found (key a) = v? := by
  obtain ⟨-, rfl⟩ := collect_eq_ok_iff.mp h
  rw [Keyed.get?_filterMap distinct ha, hv]
  cases v? <;> rfl

theorem ordered_of_collect (sorted : (l.map key).Pairwise (· < ·))
    (values : ∀ a ∈ l, ∀ v, g a = .ok (some v) → v.Ordered) : (object found).Ordered := by
  refine ordered_object_iff.mpr ⟨?_, ?_⟩
  · exact Keyed.ordered_iff_keys.mpr (sorted.sublist (keys_of_collect h))
  · intro entry hentry
    obtain ⟨hall, rfl⟩ := collect_eq_ok_iff.mp h
    obtain ⟨a, ha, hentry⟩ := List.mem_filterMap.mp hentry
    obtain ⟨v?, hv⟩ := hall a ha
    rw [hv] at hentry
    obtain ⟨v, rfl, rfl⟩ := Option.map_eq_some_iff.mp hentry
    exact values a ha v hv

end Collected

/-- Inserting under increasing keys is collecting. -/
theorem foldlM_insert {step : Fields → α → Except Fault Fields}
    (hstep : ∀ a ∈ l, ∀ found, step found a =
      (g a).map fun v? => v?.elim found (Keyed.insert found (key a)))
    (sorted : (l.map key).Pairwise (· < ·)) {start : Fields}
    (below : ∀ k ∈ start.keys, ∀ a ∈ l, k < key a) :
    l.foldlM step start = (collect key g l).map (start ++ ·) := by
  induction l generalizing start with
  | nil => exact congrArg Except.ok (List.append_nil start).symm
  | cons a rest ih =>
    obtain ⟨ha, hrest⟩ := List.forall_mem_cons.mp hstep
    obtain ⟨hfirst, hsorted⟩ := List.pairwise_cons.mp sorted
    rw [List.foldlM_cons, ha, collect_cons, Except.map_bind, Except.bind_map]
    refine congrArg (g a >>= ·) (funext fun v? => ?_)
    rw [Except.map_map]
    cases v? with
    | none => exact ih hrest hsorted fun k hk a' ha' => below k hk a' (List.mem_cons_of_mem _ ha')
    | some v =>
      have hlast := Keyed.insert_of_lt (fun k hk => below k hk a List.mem_cons_self) v
      have hbelow : ∀ k ∈ Keyed.keys (start ++ [(key a, v)]), ∀ a' ∈ rest, k < key a' := by
        intro k hk a' ha'
        rw [Keyed.keys, List.map_append, List.mem_append] at hk
        rcases hk with hk | hk
        · exact below k hk a' (List.mem_cons_of_mem _ ha')
        · rw [List.mem_singleton.mp hk]
          exact hfirst _ (List.mem_map_of_mem ha')
      show List.foldlM step (Keyed.insert start (key a) v) rest = _
      rw [hlast, ih hrest hsorted hbelow]
      refine congrArg (Except.map · _) (funext fun found => ?_)
      exact List.append_assoc ..

end Collect

/-! ## What is asked of a database -/

/-- A mapping refers to a signal of a message: there is a key for it in the message's signals. -/
def Refers (messages : Fields) (id : UInt32) (name : String) : Prop :=
  ∃ fields signals : Fields, messages.get? (Identifier.key id) = some (.object fields) ∧
    fields.get? "signals" = some (.object signals) ∧ name ∈ signals.keys

theorem referredSignals_object (fields : Fields) : referredSignals (.object fields) =
    (((fields.get? "signals").bind Value.fields?).map Keyed.keys).getD [] := rfl

theorem mem_referredSignals_iff {message : Value} {name : String} :
    name ∈ referredSignals message ↔ ∃ fields signals : Fields, message = .object fields ∧
      fields.get? "signals" = some (.object signals) ∧ name ∈ signals.keys := by
  cases message with
  | object fields =>
    rw [referredSignals_object]
    cases hsignals : Keyed.get? fields "signals" with
    | none => simp [hsignals]
    | some v => cases v <;> simp [hsignals, Value.fields?]
  | _ => simp [referredSignals, Value.field?, Value.fields?]

theorem nodup_of_sorted {names : List String} (sorted : names.Pairwise (· < ·)) :
    (names.map fun name => name).Nodup := by
  rw [List.map_id']
  refine sorted.imp fun {a b} hlt heq => ?_
  subst heq
  exact Std.lt_irrefl hlt

theorem referredSignals_sorted (message : OrderedValue) :
    (referredSignals message).Pairwise (· < ·) := by
  obtain ⟨message, ordered⟩ := message
  cases message with
  | object fields =>
    let m : OrderedObject := ⟨fields, ordered⟩
    show (referredSignals (.object m.fields)).Pairwise (· < ·)
    rw [referredSignals_object]
    cases hsignals : m.fields.get? "signals" with
    | none => exact .nil
    | some v =>
      cases v with
      | object signals => exact Keyed.ordered_iff_keys.mp (m.objectAt hsignals).keys_ordered
      | _ => exact .nil
  | _ => exact .nil

/-- A message that is called by a name and has some signals. -/
abbrev describedMessage (name : String) (signals : OrderedObject) : OrderedObject where
  fields := [("name", .text name), ("signals", .object signals)]
  ordered := ordered_object_iff.mpr
    ⟨Keyed.ordered_iff_keys.mpr (show List.Pairwise (· < ·) ["name", "signals"] by decide),
      List.forall_mem_cons.mpr ⟨trivial, List.forall_mem_singleton.mpr signals.ordered⟩⟩

namespace Database

variable {d d' : Database}

/-- The first signal of a name in the first message with an identifier, with the message's name. -/
def lookup? (d : Database) (id : UInt32) (name : String) : Option (String × DatabaseSignal) :=
  (d.find? id).bind fun message =>
    (message.signals.find? fun signal => signal.name == name).map (Prod.mk message.name)

/-- The description of a signal, if the database has it. -/
def describeSignal (d : Database) (id : UInt32) (name : String) : Except Fault (Option Value) :=
  match d.lookup? id name with
  | none => .ok none
  | some found => (found.2.describe id name).map some

/-- The description of a message, if the database has any of the signals named. -/
def describeMessage (d : Database) (id : UInt32) (names : List String) :
    Except Fault (Option Value) :=
  (collect (fun name => name) (d.describeSignal id) names).map fun signals =>
    (names.findSome? (d.lookup? id)).map fun found =>
      .object [("name", .text found.1), ("signals", .object signals)]

/-- The description of a message that a mapping has under a key. -/
def describeEntry (d : Database) (entry : String × Value) : Except Fault (Option Value) :=
  identify entry.1 >>= fun id => d.describeMessage id (referredSignals entry.2)

theorem describeSignal_of_none {id : UInt32} {name : String} (h : d.lookup? id name = none) :
    d.describeSignal id name = .ok none := by
  rw [describeSignal, h]

theorem describeSignal_of_some {id : UInt32} {name : String} {found : String × DatabaseSignal}
    (h : d.lookup? id name = some found) :
    d.describeSignal id name = (found.2.describe id name).map some := by
  rw [describeSignal, h]

theorem ordered_of_describeSignal {id : UInt32} {name : String} {v : Value}
    (h : d.describeSignal id name = .ok (some v)) : v.Ordered := by
  cases hfound : d.lookup? id name with
  | none =>
    rw [describeSignal_of_none hfound] at h
    cases h
  | some found =>
    rw [describeSignal_of_some hfound] at h
    obtain ⟨w, hw, heq⟩ := Except.map_eq_ok_iff.mp h
    obtain rfl := Option.some.inj heq
    obtain ⟨m, rfl, -⟩ := DatabaseSignal.fields_of_describe hw
    exact m.ordered

/-- A signal can be described unless it is there and incomplete. -/
theorem exists_describeSignal_iff {id : UInt32} {name : String} :
    (∃ v?, d.describeSignal id name = .ok v?) ↔
      ∀ found, d.lookup? id name = some found → found.2.Complete := by
  cases hfound : d.lookup? id name with
  | none => exact ⟨fun _ _ h => (nomatch h), fun _ => ⟨none, describeSignal_of_none hfound⟩⟩
  | some found =>
    simp only [describeSignal_of_some hfound, Option.some.injEq, forall_eq', Except.map_eq_ok_iff]
    rw [← DatabaseSignal.exists_describe_iff]
    exact ⟨fun ⟨_, v, hv, _⟩ => ⟨v, hv⟩, fun ⟨v, hv⟩ => ⟨some v, v, hv, rfl⟩⟩

theorem exists_describeMessage_iff {id : UInt32} {names : List String} :
    (∃ v?, d.describeMessage id names = .ok v?) ↔
      ∀ name ∈ names, ∀ found, d.lookup? id name = some found → found.2.Complete := by
  have hcollect : (∃ found, collect (fun name => name) (d.describeSignal id) names = .ok found) ↔
      ∀ name ∈ names, ∃ v?, d.describeSignal id name = .ok v? := exists_collect_iff
  simp only [← exists_describeSignal_iff]
  rw [← hcollect]
  simp only [describeMessage, Except.map_eq_ok_iff]
  exact ⟨fun ⟨_, found, hfound, _⟩ => ⟨found, hfound⟩, fun ⟨found, hfound⟩ => ⟨_, found, hfound, rfl⟩⟩

/-- What is collected about signals, in the order of their names. -/
theorem ordered_of_collectSignals {id : UInt32} {names : List String}
    (sorted : names.Pairwise (· < ·)) {found : Fields}
    (h : collect (fun name => name) (d.describeSignal id) names = .ok found) :
    (object found).Ordered :=
  ordered_of_collect h (by rwa [List.map_id']) fun _ _ _ hv => ordered_of_describeSignal hv

theorem ordered_of_describeMessage {id : UInt32} {names : List String}
    (sorted : names.Pairwise (· < ·)) {v : Value}
    (h : d.describeMessage id names = .ok (some v)) : v.Ordered := by
  obtain ⟨signals, hsignals, heq⟩ := Except.map_eq_ok_iff.mp h
  obtain ⟨found, -, rfl⟩ := Option.map_eq_some_iff.mp heq
  exact (describedMessage found.1 ⟨signals, ordered_of_collectSignals sorted hsignals⟩).ordered

/-- Only the signals that are looked up matter. -/
theorem describeMessage_congr {id : UInt32} {names : List String}
    (h : ∀ name ∈ names, d.lookup? id name = d'.lookup? id name) :
    d.describeMessage id names = d'.describeMessage id names := by
  have hfirst : names.findSome? (d.lookup? id) = names.findSome? (d'.lookup? id) := by
    induction names with
    | nil => rfl
    | cons name rest ih =>
      obtain ⟨hname, hrest⟩ := List.forall_mem_cons.mp h
      rw [List.findSome?_cons, List.findSome?_cons, hname, ih hrest]
  have hsignals : ∀ name ∈ names, d.describeSignal id name = d'.describeSignal id name := by
    intro name hname
    rw [describeSignal, describeSignal, h name hname]
  rw [describeMessage, describeMessage, hfirst, collect_congr hsignals]

/-! ## The loops -/

section Message

variable {id : UInt32} {names : List String}

/-- Where no signal is there, there is nothing to be said about the message. -/
theorem describeMessage_of_none (h : ∀ name ∈ names, d.lookup? id name = none) :
    d.describeMessage id names = .ok none := by
  have hfirst : names.findSome? (d.lookup? id) = none := List.findSome?_eq_none_iff.mpr h
  obtain ⟨found, hfound⟩ : ∃ found,
      collect (fun name => name) (d.describeSignal id) names = .ok found :=
    exists_collect_iff.mpr fun name hname => ⟨none, describeSignal_of_none (h name hname)⟩
  rw [describeMessage, hfirst, hfound]
  rfl

variable {message : DatabaseMessage} (hmessage : d.find? id = some message)
  (sorted : names.Pairwise (· < ·))
include hmessage sorted

theorem describeSignals_eq :
    message.describeSignals id names = collect (fun name => name) (d.describeSignal id) names := by
  have hlookup : ∀ name, d.lookup? id name =
      (message.signals.find? fun signal => signal.name == name).map (Prod.mk message.name) := by
    intro name
    rw [lookup?, hmessage, Option.bind_some]
  have hsorted : (names.map fun name => name).Pairwise (· < ·) := by rwa [List.map_id']
  rw [DatabaseMessage.describeSignals, @foldlM_insert _ (fun name => name) (d.describeSignal id) _ _
    (fun name _ found => ?_) hsorted _ fun _ hk => absurd hk List.not_mem_nil]
  · cases collect (fun name => name) (d.describeSignal id) names <;> rfl
  · cases hsignal : message.signals.find? fun signal => signal.name == name with
    | none =>
      rw [describeSignal_of_none (by rw [hlookup, hsignal]; rfl)]
      rfl
    | some signal =>
      have hfound : d.lookup? id name = some (message.name, signal) := by
        rw [hlookup, hsignal]
        rfl
      rw [describeSignal_of_some hfound, Except.map_map]
      rfl

/-- What the loop over the signals of a message yields, put together. -/
theorem describeMessage_eq : d.describeMessage id names =
    (message.describeSignals id names).map fun signals =>
      if signals.isEmpty then none
      else some (.object [("name", .text message.name), ("signals", .object signals)]) := by
  rw [describeSignals_eq hmessage sorted, describeMessage]
  cases hcollect : collect (fun name => name) (d.describeSignal id) names with
  | error fault => rfl
  | ok signals =>
    refine congrArg Except.ok ?_
    cases hfirst : names.findSome? (d.lookup? id) with
    | none =>
      have hnone : signals = [] := by
        have hall := List.findSome?_eq_none_iff.mp hfirst
        obtain ⟨-, rfl⟩ := collect_eq_ok_iff.mp hcollect
        refine List.filterMap_eq_nil_iff.mpr fun name hname => ?_
        rw [describeSignal_of_none (hall name hname)]
        rfl
      rw [hnone]
      rfl
    | some found =>
      -- A signal that is there was described, so the list is not empty.
      obtain ⟨name, hname, hfound⟩ := List.exists_of_findSome?_eq_some hfirst
      obtain ⟨v?, hv⟩ := (collect_eq_ok_iff.mp hcollect).1 name hname
      have hget := get?_of_collect hcollect (nodup_of_sorted sorted) hname hv
      rw [describeSignal_of_some hfound] at hv
      obtain ⟨v, -, rfl⟩ := Except.map_eq_ok_iff.mp hv
      have hnonempty : signals.isEmpty = false :=
        List.isEmpty_eq_false_iff.mpr (List.ne_nil_of_mem (Keyed.mem_of_get?_eq_some hget))
      rw [lookup?, hmessage, Option.bind_some] at hfound
      obtain ⟨signal, -, rfl⟩ := Option.map_eq_some_iff.mp hfound
      show _ = if signals.isEmpty then none else _
      rw [hnonempty]
      rfl

end Message

theorem ordered_of_describeEntry {key : String} (message : OrderedValue) {v : Value}
    (h : d.describeEntry (key, message.value) = .ok (some v)) : v.Ordered := by
  obtain ⟨id, -, h⟩ := Except.bind_eq_ok_iff.mp h
  exact ordered_of_describeMessage (referredSignals_sorted message) h

/-- One round of the loop over the messages of a mapping. -/
theorem extractMessage_outcome {path : String} {found : Fields} {id : UInt32}
    (message : OrderedValue) :
    (d.extractMessage path found (Identifier.key id, message.value)).outcome =
      (d.describeEntry (Identifier.key id, message.value)).map fun v? =>
        v?.elim found (Keyed.insert found (Identifier.key id)) := by
  have hid : identify (Identifier.key id) = .ok id :=
    identify_eq_ok_iff.mpr (Identifier.parse?_key id)
  simp only [extractMessage, describeEntry, Run.outcome_bind, Run.outcome_lift, hid, Except.ok_bind]
  cases hmessage : d.find? id with
  | none =>
    have hnone : ∀ name ∈ referredSignals message.value, d.lookup? id name = none := by
      intro name _
      rw [lookup?, hmessage, Option.bind_none]
    rw [describeMessage_of_none hnone]
    rfl
  | some found =>
    rw [describeMessage_eq hmessage (referredSignals_sorted message)]
    simp only [Run.outcome_bind, Run.outcome_lift, Except.map_map]
    cases found.describeSignals id (referredSignals message.value) with
    | error fault => rfl
    | ok signals => cases signals <;> rfl

/-- What is extracted is the descriptions of the mapping's messages. -/
theorem extract_outcome {path : String} {messages : OrderedObject}
    (canonical : ∀ key ∈ messages.fields.keys, ∃ id, key = Identifier.key id) :
    (d.extract path messages).outcome = collect Prod.fst d.describeEntry messages.fields := by
  have hstep : ∀ entry ∈ messages.fields, ∀ found, (d.extractMessage path found entry).outcome =
      (d.describeEntry entry).map fun v? => v?.elim found (Keyed.insert found entry.1) := by
    rintro ⟨key, message⟩ hentry found
    obtain ⟨id, rfl⟩ := canonical key (Keyed.mem_keys_of_mem hentry)
    exact extractMessage_outcome ⟨message, messages.values_ordered _ hentry⟩
  rw [extract, Run.outcome_foldlM, foldlM_insert hstep
    (Keyed.ordered_iff_keys.mp messages.keys_ordered) fun _ hk => absurd hk List.not_mem_nil]
  cases collect Prod.fst d.describeEntry messages.fields <;> rfl

end Database

end Network

end CanTables
