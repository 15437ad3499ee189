import CanTables.Proofs.Network.Import
import CanTables.Proofs.Store.Files

/-!
# CanTables.Proofs.Network.Under — a mapping with a database under it

A mapping is laid over the descriptions of the signals that it refers to.  It keeps its messages,
its signals and every attribute that it gives, null included; a signal that is an object gets the
attributes that it lacks from the first signal of its name in the first message with its identifier.

`Catalog.importUnder_of_database`: the import fails exactly if a signal that is referred to is found
and lacks one of its layout fields; otherwise a mapping over a database results
(`Network.MappingOver`); and databases in which the signals referred to are the same yield the same.
-/

namespace CanTables

open Document Value

namespace Network

/-! ## What results -/

/-- What becomes of a signal of a mapping, given what a database has for it.  It stands as it is if
there is nothing or if it is no object; otherwise it keeps its attributes and takes over those that
it lacks, from a signal that has them. -/
structure SignalOver (found : Option (String × DatabaseSignal)) (key : String)
    (own merged : Value) : Prop where
  stands : (found = none ∨ ∀ attrs, own ≠ .object attrs) → merged = own
  taken : ∀ message signal attrs, found = some (message, signal) → own = .object attrs →
    signal.Complete ∧ ∃ attrs' : Fields, merged = .object attrs' ∧
      ∀ attr, attrs'.get? attr = (Keyed.get? attrs attr).or (signal.said? key attr)

/-- What becomes of the signals of a message: no key is added and none is lost. -/
structure SignalsOver (found : String → Option (String × DatabaseSignal))
    (own merged : Fields) : Prop where
  keys_eq : merged.keys = own.keys
  signal : ∀ key signal, own.get? key = some signal →
    ∃ signal', merged.get? key = some signal' ∧ SignalOver (found key) key signal signal'

/-- What becomes of the attributes of a message, given what a database has for its signals. -/
structure MessageOver (found : String → Option (String × DatabaseSignal)) (own merged : Fields) :
    Prop where
  attributes : ∀ attr, attr ≠ "name" → attr ≠ "signals" → merged.get? attr = own.get? attr
  /-- The message is called what the database calls it if it has no name. -/
  name : merged.get? "name" = (own.get? "name").or
    (((referredSignals (.object own)).findSome? found).map fun entry => .text entry.1)
  no_signals : (∀ signals, own.get? "signals" ≠ some (.object signals)) →
    merged.get? "signals" = own.get? "signals"
  signals : ∀ signals, own.get? "signals" = some (.object signals) →
    ∃ signals', merged.get? "signals" = some (.object signals') ∧ SignalsOver found signals signals'

/-- What becomes of the messages of a mapping over a database. -/
structure MappingOver (d : Database) (messages merged : Fields) : Prop where
  keys_eq : merged.keys = messages.keys
  /-- What is no object stands. -/
  stands : ∀ key message, messages.get? key = some message →
    (∀ fields, message ≠ .object fields) → merged.get? key = some message
  message : ∀ id fields, messages.get? (Identifier.key id) = some (.object fields) →
    ∃ fields', merged.get? (Identifier.key id) = some (.object fields') ∧
      MessageOver (d.lookup? id) fields fields'

/-! ## Why it results -/

/-- A value laid over a description, if there is one. -/
def layOver (described : Option Value) (own : Value) : Value :=
  described.elim own fun below => overlayEntry below own

theorem get?_overlayFields_of_some (lower : OrderedObject) {upper : OrderedObject} {key : String}
    {own : Value} (h : upper.fields.get? key = some own) :
    Keyed.get? (overlayFields lower upper) key = some (layOver (lower.fields.get? key) own) := by
  rw [get?_overlayFields, h]
  cases lower.fields.get? key <;> rfl

section Described

variable {d : Database} {id : UInt32} {described : Option Value}

theorem signalOver {key : String} (h : d.describeSignal id key = .ok described)
    (own : OrderedValue) : SignalOver (d.lookup? id key) key own (layOver described own) := by
  cases hfound : d.lookup? id key with
  | none =>
    rw [Database.describeSignal_of_none hfound] at h
    obtain rfl := Except.ok.inj h
    exact ⟨fun _ => rfl, fun _ _ _ heq => nomatch heq⟩
  | some found =>
    rw [Database.describeSignal_of_some hfound] at h
    obtain ⟨v, hv, rfl⟩ := Except.map_eq_ok_iff.mp h
    obtain ⟨lower, rfl, hplain, hget⟩ := DatabaseSignal.fields_of_describe hv
    obtain ⟨own, ordered⟩ := own
    refine ⟨fun hstands => ?_, ?_⟩
    · exact overlayEntry_not_object lower (hstands.resolve_left (Option.some_ne_none found))
    · rintro message signal attrs hsome rfl
      obtain rfl := Option.some.inj hsome
      refine ⟨DatabaseSignal.exists_describe_iff.mp ⟨_, hv⟩, _,
        overlayEntry_object lower.fields attrs, fun attr => ?_⟩
      rw [get?_overlayFields_of_plain lower ⟨attrs, ordered⟩ hplain, hget]

theorem signalsOver (signals : OrderedObject) {collected : OrderedObject}
    (h : collect (fun name => name) (d.describeSignal id) signals.fields.keys =
      .ok collected.fields) :
    SignalsOver (d.lookup? id) signals (overlayFields collected signals) := by
  have hsorted := Keyed.ordered_iff_keys.mp signals.keys_ordered
  have hsub := keys_of_collect h
  rw [List.map_id'] at hsub
  refine ⟨keys_overlayFields collected signals fun key hkey => hsub.mem hkey, ?_⟩
  intro key signal hsignal
  have hkey := Keyed.mem_keys_of_mem (Keyed.mem_of_get?_eq_some hsignal)
  obtain ⟨v?, hv⟩ := (collect_eq_ok_iff.mp h).1 key hkey
  refine ⟨_, get?_overlayFields_of_some collected hsignal, ?_⟩
  rw [get?_of_collect h (nodup_of_sorted hsorted) hkey hv]
  exact signalOver hv (signals.valueAt hsignal)

theorem referredSignals_of_signals {fields signals : Fields}
    (h : fields.get? "signals" = some (.object signals)) :
    referredSignals (.object fields) = signals.keys := by
  rw [referredSignals_object, h]
  rfl

/-- A message none of whose signals is found stands. -/
theorem messageOver_self {found : String → Option (String × DatabaseSignal)} {own : Fields}
    (h : (referredSignals (.object own)).findSome? found = none) : MessageOver found own own := by
  refine ⟨fun _ _ _ => rfl, ?_, fun _ => rfl, fun signals hsignals => ?_⟩
  · rw [h]
    exact (Option.or_none ..).symm
  · refine ⟨signals, hsignals, rfl, fun key signal hsignal => ⟨signal, hsignal, ?_⟩⟩
    rw [referredSignals_of_signals hsignals] at h
    rw [List.findSome?_eq_none_iff.mp h key
      (Keyed.mem_keys_of_mem (Keyed.mem_of_get?_eq_some hsignal))]
    exact ⟨fun _ => rfl, fun _ _ _ heq => nomatch heq⟩

/-- A message with signals comes over the name that the database has for it and over what was
collected about its signals. -/
theorem messageOver_of_signals {own : OrderedObject} {signals : Fields} {collected : OrderedObject}
    {found : String × DatabaseSignal}
    (hsignals : own.fields.get? "signals" = some (.object signals))
    (hfirst : signals.keys.findSome? (d.lookup? id) = some found)
    (h : collect (fun name => name) (d.describeSignal id) signals.keys = .ok collected.fields) :
    MessageOver (d.lookup? id) own (overlayFields (describedMessage found.1 collected) own) := by
  refine ⟨fun attr hname hattr => ?_, ?_, fun hno => absurd hsignals (hno signals), ?_⟩
  · have habsent : (describedMessage found.1 collected).fields.get? attr = none :=
      (if_neg hname).trans (if_neg hattr)
    rw [get?_overlayFields, habsent, Option.merge_none_left]
  · rw [get?_overlayFields, referredSignals_of_signals hsignals, hfirst]
    cases own.fields.get? "name" with
    | none => rfl
    | some v =>
      have hplain : (Value.text found.1).IsPlain := trivial
      exact congrArg some (overlayEntry_of_plain hplain v)
  · intro signals' heq
    obtain rfl : signals = signals' := by
      rw [hsignals] at heq
      cases heq
      rfl
    refine ⟨overlayFields collected signals, ?_, signalsOver (own.objectAt hsignals) h⟩
    rw [get?_overlayFields_of_some _ hsignals]
    exact congrArg some (overlayEntry_object collected signals)

theorem messageOver (own : OrderedObject)
    (h : d.describeMessage id (referredSignals (.object own)) = .ok described) :
    ∃ merged : Fields, layOver described (.object own) = .object merged ∧
      MessageOver (d.lookup? id) own merged := by
  obtain ⟨collected, hcollect, rfl⟩ := Except.map_eq_ok_iff.mp h
  lift collected to OrderedObject using
    Database.ordered_of_collectSignals (referredSignals_sorted own.toValue) hcollect
  cases hfirst : (referredSignals (.object own)).findSome? (d.lookup? id) with
  | none => exact ⟨own, rfl, messageOver_self hfirst⟩
  | some found =>
    -- Some signal is found, so the message has signals.
    obtain ⟨name, hname, -⟩ := List.exists_of_findSome?_eq_some hfirst
    obtain ⟨fields, signals, heq, hsignals, -⟩ := mem_referredSignals_iff.mp hname
    cases heq
    rw [referredSignals_of_signals hsignals] at hfirst hcollect
    exact ⟨_, overlayEntry_object _ own, messageOver_of_signals hsignals hfirst hcollect⟩

end Described

/-- Whatever is collected, the mapping comes over it with all that it says. -/
theorem mappingOver {d : Database} {messages : OrderedObject} {imported : Fields}
    (canonical : ∀ key ∈ messages.fields.keys, ∃ id, key = Identifier.key id)
    (h : collect Prod.fst d.describeEntry messages.fields = .ok imported) :
    MappingOver d messages (overlayFields imported messages) := by
  lift imported to OrderedObject using
    ordered_of_collect h (Keyed.ordered_iff_keys.mp messages.keys_ordered) fun entry hentry _ hv =>
      Database.ordered_of_describeEntry
        ⟨entry.2, messages.values_ordered entry hentry⟩ hv
  have hsub := keys_of_collect h
  -- Under the key of an identifier stands the message over its description.
  have hget : ∀ id message, messages.fields.get? (Identifier.key id) = some message →
      ∃ described, d.describeMessage id (referredSignals message) = .ok described ∧
        Keyed.get? (overlayFields imported messages) (Identifier.key id) =
          some (layOver described message) := by
    intro id message hmessage
    have hmem := Keyed.mem_of_get?_eq_some hmessage
    obtain ⟨described, hdescribed⟩ := (collect_eq_ok_iff.mp h).1 _ hmem
    refine ⟨described, ?_, ?_⟩
    · rwa [Database.describeEntry, identify_eq_ok_iff.mpr (Identifier.parse?_key id),
        Except.ok_bind] at hdescribed
    · rw [get?_overlayFields_of_some imported hmessage,
        ← get?_of_collect h messages.keys_ordered.nodup_keys hmem hdescribed]
  refine ⟨keys_overlayFields imported messages fun key hkey => hsub.mem hkey, ?_, ?_⟩
  · intro key message hmessage hno
    obtain ⟨id, rfl⟩ := canonical key (Keyed.mem_keys_of_mem (Keyed.mem_of_get?_eq_some hmessage))
    obtain ⟨described, hdescribed, hmerged⟩ := hget id message hmessage
    have hnames : referredSignals message = [] := by
      refine List.eq_nil_iff_forall_not_mem.mpr fun name hname => ?_
      obtain ⟨fields, -, heq, -⟩ := mem_referredSignals_iff.mp hname
      exact hno fields heq
    have hnone : d.describeMessage id [] = .ok none :=
      Database.describeMessage_of_none fun _ hname => absurd hname List.not_mem_nil
    rw [hnames, hnone] at hdescribed
    obtain rfl := Except.ok.inj hdescribed
    exact hmerged
  · intro id fields hfields
    obtain ⟨described, hdescribed, hmerged⟩ := hget id _ hfields
    obtain ⟨merged, heq, hover⟩ := messageOver (messages.objectAt hfields) hdescribed
    exact ⟨merged, hmerged.trans (congrArg some heq), hover⟩

theorem refers_iff {messages : Fields} {id : UInt32} {name : String} :
    Refers messages id name ↔
      ∃ message, messages.get? (Identifier.key id) = some message ∧ name ∈ referredSignals message := by
  constructor
  · rintro ⟨fields, signals, hfields, hsignals, hname⟩
    exact ⟨_, hfields, mem_referredSignals_iff.mpr ⟨fields, signals, rfl, hsignals, hname⟩⟩
  · rintro ⟨message, hmessage, hname⟩
    obtain ⟨fields, signals, rfl, hsignals, hname⟩ := mem_referredSignals_iff.mp hname
    exact ⟨fields, signals, hmessage, hsignals, hname⟩

section Entries

variable {d d' : Database} {messages : OrderedObject}
  (canonical : ∀ key ∈ messages.fields.keys, ∃ id, key = Identifier.key id)
include canonical

/-- Every entry of a mapping is a message under the canonical key of an identifier. -/
theorem exists_of_mem {entry : String × Value} (h : entry ∈ messages.fields) :
    ∃ id, identify entry.1 = .ok id ∧ messages.fields.get? (Identifier.key id) = some entry.2 := by
  obtain ⟨id, hid⟩ := canonical entry.1 (Keyed.mem_keys_of_mem h)
  refine ⟨id, ?_, ?_⟩
  · rw [hid]
    exact identify_eq_ok_iff.mpr (Identifier.parse?_key id)
  · rw [← hid]
    exact messages.keys_ordered.get?_eq_some_iff.mpr h

/-- All messages can be described unless a signal that is referred to is there and incomplete. -/
theorem exists_collect_describeEntry_iff :
    (∃ imported, collect Prod.fst d.describeEntry messages.fields = .ok imported) ↔
      ∀ id name found, Refers messages id name → d.lookup? id name = some found →
        found.2.Complete := by
  rw [exists_collect_iff]
  constructor
  · intro h id name found hrefers hfound
    obtain ⟨message, hmessage, hname⟩ := refers_iff.mp hrefers
    obtain ⟨described, hdescribed⟩ := h _ (Keyed.mem_of_get?_eq_some hmessage)
    rw [Database.describeEntry, identify_eq_ok_iff.mpr (Identifier.parse?_key id),
      Except.ok_bind] at hdescribed
    exact Database.exists_describeMessage_iff.mp ⟨described, hdescribed⟩ name hname found hfound
  · intro h entry hentry
    obtain ⟨id, hid, hmessage⟩ := exists_of_mem canonical hentry
    rw [Database.describeEntry, hid, Except.ok_bind, Database.exists_describeMessage_iff]
    exact fun name hname found hfound =>
      h id name found (refers_iff.mpr ⟨entry.2, hmessage, hname⟩) hfound

/-- Databases with the same signals for all that a mapping refers to give the same descriptions. -/
theorem collect_describeEntry_congr (h : ∀ id name, Refers messages id name →
      d.lookup? id name = d'.lookup? id name) :
    collect Prod.fst d.describeEntry messages.fields =
      collect Prod.fst d'.describeEntry messages.fields := by
  refine collect_congr fun entry hentry => ?_
  obtain ⟨id, hid, hmessage⟩ := exists_of_mem canonical hentry
  rw [Database.describeEntry, Database.describeEntry, hid, Except.ok_bind, Except.ok_bind]
  exact Database.describeMessage_congr fun name hname =>
    h id name (refers_iff.mpr ⟨entry.2, hmessage, hname⟩)

end Entries

end Network

/-! ## Imports -/

namespace Catalog

open Network

variable {c c' : Catalog} {name name' : String} {d d' : Database}

/-- A name stands for a file that holds a database. -/
def HasDatabase (c : Catalog) (name : String) (d : Database) : Prop :=
  ∃ text, c.readText name = .ok text ∧ Database.ofText? text = some d

theorem importUnder_outcome {origin : Origin} {messages : OrderedObject} (h : c.HasDatabase name d)
    (canonical : ∀ key ∈ messages.fields.keys, ∃ id, key = Identifier.key id) :
    (c.importUnder origin (some name) messages).outcome =
      (collect Prod.fst d.describeEntry messages.fields).map (overlayFields · messages) := by
  obtain ⟨text, hread, hd⟩ := h
  obtain ⟨found, hfound, htext⟩ := Except.bind_eq_ok_iff.mp hread
  have himport : (importMessages found.path (textOf found) messages).outcome =
      collect Prod.fst d.describeEntry messages.fields := by
    have hextract : (d.extract found.path messages).outcome = _ :=
      Database.extract_outcome canonical
    generalize messages.fields = entries at hextract ⊢
    cases entries with
    | nil => rfl
    | cons entry rest =>
      simp only [importMessages, List.isEmpty_cons, Bool.false_eq_true, if_false, htext,
        Run.lift_ok_bind, hd]
      exact hextract
  simp only [importUnder, hfound, Run.lift_ok_bind, Run.outcome_bind, himport]
  cases collect Prod.fst d.describeEntry messages.fields <;> rfl

/-- A mapping over a database: that fails exactly if the database has a signal that the mapping
refers to, but not all layout fields of it; otherwise the mapping keeps all that it says and takes
over what it lacks; and nothing else of the database matters. -/
theorem importUnder_of_database {origin : Origin} {messages : Fields} (h : c.HasDatabase name d)
    (ordered : (object messages).Ordered)
    (canonical : ∀ key ∈ messages.keys, ∃ id, key = Identifier.key id) :
    ((∃ fault, (c.importUnder origin (some name) messages).outcome = .error fault) ↔
        ∃ id signal found, Refers messages id signal ∧ d.lookup? id signal = some found ∧
          ¬ found.2.Complete) ∧
      (∀ merged, (c.importUnder origin (some name) messages).outcome = .ok merged →
        MappingOver d messages merged) ∧
      ∀ (c' : Catalog) (name' : String) (d' : Database), c'.HasDatabase name' d' →
        (∀ id signal, Refers messages id signal → d.lookup? id signal = d'.lookup? id signal) →
          (c'.importUnder origin (some name') messages).outcome =
            (c.importUnder origin (some name) messages).outcome := by
  lift messages to OrderedObject using ordered
  rw [importUnder_outcome h canonical]
  refine ⟨?_, fun merged hmerged => ?_, fun c' name' d' h' hsame => ?_⟩
  · simp only [Except.map_eq_error_iff]
    rw [Except.exists_eq_error_iff, exists_collect_describeEntry_iff canonical]
    simp only [not_forall, exists_prop]
  · obtain ⟨imported, himported, rfl⟩ := Except.map_eq_ok_iff.mp hmerged
    exact mappingOver canonical himported
  · rw [importUnder_outcome h' canonical, collect_describeEntry_congr canonical hsame]

/-- A database with a message of two signals, one of which has no layout. -/
def bodyNetwork : Catalog := ofFiles [("body.xml",
  "<NetworkDefinition><Node><TxMessage><ID>16</ID><Name>body</Name><Signal><Name>door</Name>" ++
  "<Bitposition>4</Bitposition><Bitsize>2</Bitsize><Factor>0.5</Factor><Offset>nan</Offset>" ++
  "<Minimum>0</Minimum><Maximum>3</Maximum></Signal><Signal><Name>lamp</Name></Signal>" ++
  "</TxMessage></Node></NetworkDefinition>")]

/-- A mapping that refers to one signal and gives its size and, as null, its factor. -/
def referringTo (name : String) : Fields :=
  [("0x10", .object [("signals", .object [(name, .object [("bit_size", .int 3), ("factor", .null)])])])]

theorem referringTo_ordered (name : String) : (object (referringTo name)).Ordered := by
  let attributes : OrderedObject := ⟨[("bit_size", .int 3), ("factor", .null)], by decide⟩
  let signals := OrderedObject.single name attributes.toValue
  let message := OrderedObject.single "signals" signals.toValue
  exact (OrderedObject.single "0x10" message.toValue).ordered

theorem referringTo_canonical (name : String) :
    ∀ key ∈ (referringTo name).keys, ∃ id, key = Identifier.key id := by
  have hkey : "0x10" = Identifier.key 16 := by decide +kernel
  exact List.forall_mem_singleton.mpr ⟨16, hkey⟩

/-- The mapping keeps its size and its null, and takes over a position and, as null, an offset. -/
def TakesOver (merged : Fields) : Prop :=
  (object merged).at? ["0x10", "signals", "door", "bit_size"] = some (.int 3) ∧
    (object merged).at? ["0x10", "signals", "door", "factor"] = some .null ∧
    (object merged).at? ["0x10", "signals", "door", "bit_position"] = some (.int 4) ∧
    (object merged).at? ["0x10", "signals", "door", "offset"] = some .null

/-- `TakesOver`, evaluated. -/
def takesOver (merged : Fields) : Bool :=
  match (object merged).at? ["0x10", "signals", "door", "bit_size"],
    (object merged).at? ["0x10", "signals", "door", "factor"],
    (object merged).at? ["0x10", "signals", "door", "bit_position"],
    (object merged).at? ["0x10", "signals", "door", "offset"] with
  | some (.int 3), some .null, some (.int 4), some .null => true
  | _, _, _, _ => false

theorem TakesOver.of_takesOver {merged : Fields} (h : takesOver merged = true) :
    TakesOver merged := by
  unfold takesOver at h
  split at h
  · next hsize hfactor hposition hoffset => exact ⟨hsize, hfactor, hposition, hoffset⟩
  · cases h

theorem importUnder_of_database_bodyNetwork : ∃ d merged,
    bodyNetwork.HasDatabase "body.xml" d ∧
      (bodyNetwork.importUnder (.ofSet "car") (some "body.xml") (referringTo "door")).outcome =
        .ok merged ∧
      TakesOver merged ∧ MappingOver d (referringTo "door") merged ∧
      ∃ id signal found, Refers (referringTo "lamp") id signal ∧
        d.lookup? id signal = some found ∧ ¬ found.2.Complete := by
  have hany : (bodyNetwork.readText "body.xml").toOption.any (fun text =>
      (Database.ofText? text).any fun d =>
        (collect Prod.fst d.describeEntry (referringTo "lamp")).toOption.isNone &&
          ((collect Prod.fst d.describeEntry (referringTo "door")).map
            (overlayFields · (referringTo "door"))).toOption.any takesOver) = true := by
    decide +kernel
  obtain ⟨text, htext, hany⟩ := Except.exists_of_any_toOption hany
  obtain ⟨d, hd, hany⟩ := (Option.any_eq_true _ _).mp hany
  obtain ⟨hlamp, hdoor⟩ := Bool.and_eq_true_iff.mp hany
  obtain ⟨merged, hmerged, hkept⟩ := Except.exists_of_any_toOption hdoor
  have htakes : TakesOver merged := .of_takesOver hkept
  have hdatabase : bodyNetwork.HasDatabase "body.xml" d := ⟨text, htext, hd⟩
  have hdoor := @importUnder_outcome _ _ _ (.ofSet "car") ⟨_, referringTo_ordered "door"⟩ hdatabase
    (referringTo_canonical "door")
  have hlamp' := @importUnder_outcome _ _ _ (.ofSet "car") ⟨_, referringTo_ordered "lamp"⟩
    hdatabase (referringTo_canonical "lamp")
  obtain ⟨-, hover, -⟩ := @importUnder_of_database _ _ _ (.ofSet "car") _ hdatabase
    (referringTo_ordered "door") (referringTo_canonical "door")
  obtain ⟨hfails, -, -⟩ := @importUnder_of_database _ _ _ (.ofSet "car") _ hdatabase
    (referringTo_ordered "lamp") (referringTo_canonical "lamp")
  rw [hmerged] at hdoor
  refine ⟨d, merged, hdatabase, hdoor, htakes, hover merged hdoor, hfails.mp ?_⟩
  cases hrun : collect Prod.fst d.describeEntry (referringTo "lamp") with
  | error fault =>
    rw [hrun] at hlamp'
    exact ⟨fault, hlamp'⟩
  | ok found =>
    rw [hrun] at hlamp
    cases hlamp

end Catalog

end CanTables
