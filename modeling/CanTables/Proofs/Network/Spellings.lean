import CanTables.Proofs.Document.Path
import CanTables.Proofs.Network.Import
import CanTables.Proofs.Store.Files

/-!
# CanTables.Proofs.Network.Spellings — importing for identifiers with several spellings

What a database says about an entry is put under the canonical key of the entry's identifier,
whatever stands there.  So of several entries for one identifier only one is left, the last one that
refers to any signal which the database has (`Database.lastServed?`); the signals that only earlier
ones refer to are lost.  Entries that refer to no such signal leave what is there alone.

`importMessages_hasSignal_iff` says which signals are there in the end, when none is lost, and that
none is where every identifier is spelled once — as it is once the keys are canonical, which is how
mappings are imported.  `not_forall_hasSignal` is the smallest import that loses one.
-/

namespace CanTables

open Document Value

namespace Network

/-! ## What an import is asked for -/

/-- Something was imported for a signal of a message. -/
def HasSignal (imported : Fields) (id : UInt32) (name : String) : Prop :=
  ∃ v, (object imported).at? [Identifier.key id, "signals", name] = some v

/-- An entry is for an identifier and refers to some signal that the database has there. -/
def Database.serves (d : Database) (id : UInt32) (entry : String × Value) : Bool :=
  Identifier.parse? entry.1 == some id &&
    (referredSignals entry.2).any fun name => (d.lookup? id name).isSome

/-- The last of the entries for an identifier that refer to some signal which the database has. -/
def Database.lastServed? (d : Database) (id : UInt32) (messages : Fields) :
    Option (String × Value) :=
  messages.reverse.find? (d.serves id)

/-- Some entry for an identifier, however it spells it, refers to a signal that the database has. -/
def RefersWithin (d : Database) (messages : Fields) (id : UInt32) (name : String) : Prop :=
  ∃ entry ∈ messages, Identifier.parse? entry.1 = some id ∧ name ∈ referredSignals entry.2 ∧
    (d.lookup? id name).isSome

/-- A value describes exactly the signals that an entry refers to and that the database has. -/
def Describes (d : Database) (id : UInt32) (entry : String × Value) (v : Value) : Prop :=
  ∃ (message : Value) (signals : Fields),
    v = .object [("name", message), ("signals", .object signals)] ∧
      ∀ name, name ∈ signals.keys ↔ name ∈ referredSignals entry.2 ∧ (d.lookup? id name).isSome

variable {d : Database}

theorem serves_iff {id : UInt32} {entry : String × Value} :
    d.serves id entry = true ↔ Identifier.parse? entry.1 = some id ∧
      ∃ name ∈ referredSignals entry.2, (d.lookup? id name).isSome := by
  simp [Database.serves]

theorem lookup?_isSome_iff {id : UInt32} {name : String} {message : DatabaseMessage}
    (hmessage : d.find? id = some message) :
    (d.lookup? id name).isSome ↔
      (message.signals.find? fun signal => signal.name == name).isSome := by
  simp [Database.lookup?, hmessage]

theorem lastServed?_concat (id : UInt32) (rest : Fields) (entry : String × Value) :
    d.lastServed? id (rest ++ [entry]) =
      if d.serves id entry then some entry else d.lastServed? id rest := by
  rw [Database.lastServed?, List.reverse_concat, List.find?_cons]
  cases d.serves id entry <;> rfl

/-- Every entry that refers to a signal of the database has one that is served last. -/
theorem RefersWithin.exists_lastServed {messages : Fields} {id : UInt32} {name : String}
    (h : RefersWithin d messages id name) : ∃ entry, d.lastServed? id messages = some entry := by
  obtain ⟨entry, hentry, hid, hname, hfound⟩ := h
  rw [← Option.isSome_iff_exists, Database.lastServed?, List.find?_isSome]
  exact ⟨entry, List.mem_reverse.mpr hentry, serves_iff.mpr ⟨hid, name, hname, hfound⟩⟩

theorem of_lastServed?_eq_some {messages : Fields} {id : UInt32} {entry : String × Value}
    (h : d.lastServed? id messages = some entry) :
    entry ∈ messages ∧ Identifier.parse? entry.1 = some id :=
  ⟨List.mem_reverse.mp (List.mem_of_find?_eq_some h),
    (serves_iff.mp (List.find?_some h)).1⟩

/-! ## The loops -/

/-- The signals of a message that are described are those that it has. -/
theorem mem_keys_of_describeSignals {m : DatabaseMessage} {id : UInt32} {names : List String}
    {signals : Fields} (h : m.describeSignals id names = .ok signals) {name : String} :
    name ∈ signals.keys ↔
      name ∈ names ∧ (m.signals.find? fun signal => signal.name == name).isSome := by
  unfold DatabaseMessage.describeSignals at h
  induction names using List.reverseRecOn generalizing signals with
  | nil =>
    cases h
    simp [Keyed.keys]
  | append_singleton rest last ih =>
    rw [List.foldlM_append] at h
    obtain ⟨before, hbefore, h⟩ := Except.bind_eq_ok_iff.mp h
    obtain ⟨after, hafter, h⟩ := Except.bind_eq_ok_iff.mp h
    cases h
    have ih := ih hbefore
    cases hlast : m.signals.find? fun signal => signal.name == last with
    | none =>
      -- The last name adds nothing, and nothing was to be added for it.
      simp only [hlast] at hafter
      cases hafter
      rw [ih, List.mem_append, List.mem_singleton, or_and_right]
      refine (or_iff_left ?_).symm
      rintro ⟨rfl, hsome⟩
      rw [hlast] at hsome
      cases hsome
    | some signal =>
      simp only [hlast] at hafter
      obtain ⟨v, -, rfl⟩ := Except.map_eq_ok_iff.mp hafter
      rw [Keyed.insert, Keyed.mem_keys_upsert, ih, List.mem_append, List.mem_singleton,
        or_and_right, or_comm]
      refine or_congr_right ⟨?_, And.left⟩
      rintro rfl
      exact ⟨rfl, by rw [hlast]; rfl⟩

/-- One round: an entry that refers to no signal of the database changes nothing, any other replaces
what stands under the key of its identifier. -/
theorem extractMessage_eq_ok {path : String} {found found' : Fields} {entry : String × Value}
    (h : (d.extractMessage path found entry).outcome = .ok found') :
    ∃ id, Identifier.parse? entry.1 = some id ∧
      (d.serves id entry = false ∧ found' = found ∨
        d.serves id entry = true ∧ ∃ v, Describes d id entry v ∧
          found' = Keyed.insert found (Identifier.key id) v) := by
  obtain ⟨id, hid, h⟩ := Run.bind_outcome_eq_ok_iff.mp h
  have hid : Identifier.parse? entry.1 = some id := identify_eq_ok_iff.mp hid
  refine ⟨id, hid, ?_⟩
  cases hmessage : d.find? id with
  | none =>
    rw [hmessage] at h
    obtain ⟨-, -, h⟩ := Run.bind_outcome_eq_ok_iff.mp h
    cases h
    refine .inl ⟨?_, rfl⟩
    simp [Database.serves, Database.lookup?, hmessage]
  | some message =>
    rw [hmessage] at h
    obtain ⟨signals, hsignals, h⟩ := Run.bind_outcome_eq_ok_iff.mp h
    have hkeys : ∀ name, name ∈ signals.keys ↔
        name ∈ referredSignals entry.2 ∧ (d.lookup? id name).isSome := by
      intro name
      rw [lookup?_isSome_iff hmessage]
      exact mem_keys_of_describeSignals hsignals
    cases hcases : signals with
    | nil =>
      rw [hcases] at h hkeys
      obtain ⟨-, -, h⟩ := Run.bind_outcome_eq_ok_iff.mp h
      cases h
      refine .inl ⟨?_, rfl⟩
      rw [← Bool.not_eq_true, serves_iff]
      rintro ⟨-, name, hname⟩
      exact List.not_mem_nil ((hkeys name).mpr hname)
    | cons first others =>
      rw [hcases] at h hkeys
      cases h
      refine .inr ⟨serves_iff.mpr ⟨hid, first.1, ?_⟩, _, ⟨_, _, rfl, hkeys⟩, rfl⟩
      exact (hkeys first.1).mp List.mem_cons_self

/-- What is imported for some entries: under the key of each identifier what the last entry that was
served says. -/
structure Imported (d : Database) (messages imported : Fields) : Prop where
  ordered : imported.Ordered
  stands : ∀ id, Option.Rel (Describes d id) (d.lastServed? id messages)
    (imported.get? (Identifier.key id))

theorem Imported.concat {path : String} {rest found found' : Fields} {entry : String × Value}
    (h : Imported d rest found)
    (hstep : (d.extractMessage path found entry).outcome = .ok found') :
    Imported d (rest ++ [entry]) found' := by
  obtain ⟨id, hid, ⟨hserves, rfl⟩ | ⟨hserves, v, hv, rfl⟩⟩ := extractMessage_eq_ok hstep
  · refine ⟨h.ordered, fun other => ?_⟩
    have hother : d.serves other entry = false := by
      by_cases heq : other = id
      · rw [heq, hserves]
      · simp [Database.serves, hid, Ne.symm heq]
    rw [lastServed?_concat, hother]
    exact h.stands other
  · refine ⟨h.ordered.insert _ _, fun other => ?_⟩
    rw [lastServed?_concat, h.ordered.get?_insert]
    by_cases heq : other = id
    · subst heq
      rw [hserves, if_pos rfl, if_pos rfl]
      exact .some hv
    · have hother : d.serves other entry = false := by
        simp [Database.serves, hid, Ne.symm heq]
      rw [hother, if_neg (Identifier.key_injective.ne heq)]
      exact h.stands other

theorem imported_of_extract {path : String} {messages imported : Fields}
    (h : (d.extract path messages).outcome = .ok imported) : Imported d messages imported := by
  rw [Database.extract, Run.outcome_foldlM] at h
  induction messages using List.reverseRecOn generalizing imported with
  | nil =>
    cases h
    exact ⟨Keyed.ordered_nil, fun _ => .none⟩
  | append_singleton rest entry ih =>
    rw [List.foldlM_append] at h
    obtain ⟨found, hfound, h⟩ := Except.bind_eq_ok_iff.mp h
    obtain ⟨found', hstep, h⟩ := Except.bind_eq_ok_iff.mp h
    cases h
    exact (ih hfound).concat hstep

theorem importMessages_cons {path text : String} (hd : Database.ofText? text = some d)
    (entry : String × Value) (rest : Fields) :
    importMessages path (.ok text) (entry :: rest) = d.extract path (entry :: rest) := by
  simp only [importMessages, List.isEmpty_cons, Bool.false_eq_true, if_false, Run.lift_ok_bind, hd]

theorem imported_of_importMessages {path text : String} {messages imported : Fields}
    (hd : Database.ofText? text = some d)
    (h : (importMessages path (.ok text) messages).outcome = .ok imported) :
    Imported d messages imported := by
  cases messages with
  | nil =>
    cases h
    exact ⟨Keyed.ordered_nil, fun _ => .none⟩
  | cons entry rest =>
    rw [importMessages_cons hd] at h
    exact imported_of_extract h

/-- Under the key of an identifier are the signals of the entry that was served last. -/
theorem Imported.hasSignal_iff {messages imported : Fields} (h : Imported d messages imported)
    {id : UInt32} {name : String} :
    HasSignal imported id name ↔ ∃ entry, d.lastServed? id messages = some entry ∧
      name ∈ referredSignals entry.2 ∧ (d.lookup? id name).isSome := by
  have hstands := h.stands id
  unfold HasSignal
  rw [at?_cons_object]
  generalize d.lastServed? id messages = served at hstands ⊢
  generalize imported.get? (Identifier.key id) = stood at hstands ⊢
  cases hstands with
  | none => simp
  | @some entry v hv =>
    obtain ⟨message, signals, rfl, hkeys⟩ := hv
    have hat : (object [("name", message), ("signals", object signals)]).at? ["signals", name] =
        signals.get? name := by
      show (object signals).at? [name] = signals.get? name
      exact at?_singleton signals name
    rw [Option.bind_some, hat, ← Option.isSome_iff_exists, Keyed.isSome_get?_iff, hkeys]
    simp

/-! ## What is kept -/

/-- Which signals an import has something for.  For an identifier they are those of the database that
the last entry served for it refers to.  So no signal that is referred to is lost exactly if for every
identifier that entry refers to all that the earlier ones do; and none is lost where no two entries
spell one identifier. -/
theorem importMessages_hasSignal_iff {path text : String} {messages imported : Fields}
    (hd : Database.ofText? text = some d)
    (h : (importMessages path (.ok text) messages).outcome = .ok imported) :
    (∀ id name, HasSignal imported id name ↔ ∃ entry, d.lastServed? id messages = some entry ∧
        name ∈ referredSignals entry.2 ∧ (d.lookup? id name).isSome) ∧
      ((∀ id name, RefersWithin d messages id name → HasSignal imported id name) ↔
        ∀ id name, RefersWithin d messages id name → ∀ entry,
          d.lastServed? id messages = some entry → name ∈ referredSignals entry.2) ∧
      ((∀ entry ∈ messages, ∀ other ∈ messages,
          Identifier.parse? entry.1 = Identifier.parse? other.1 → entry = other) →
        ∀ id name, RefersWithin d messages id name → HasSignal imported id name) := by
  have himported := imported_of_importMessages hd h
  refine ⟨fun _ _ => himported.hasSignal_iff, ?_, ?_⟩
  · apply forall₂_congr
    intro id name
    apply imp_congr_right
    intro hrefers
    rw [himported.hasSignal_iff]
    constructor
    · rintro ⟨last, hlast, hname, -⟩ entry hentry
      rw [hlast, Option.some.injEq] at hentry
      rwa [← hentry]
    · intro hall
      obtain ⟨last, hlast⟩ := hrefers.exists_lastServed
      obtain ⟨-, -, -, -, hfound⟩ := hrefers
      exact ⟨last, hlast, hall last hlast, hfound⟩
  · intro once id name hrefers
    obtain ⟨last, hlast⟩ := hrefers.exists_lastServed
    obtain ⟨entry, hentry, hid, hname, hfound⟩ := hrefers
    obtain ⟨hmem, hlastId⟩ := of_lastServed?_eq_some hlast
    have heq : entry = last := once entry hentry last hmem (hid.trans hlastId.symm)
    subst heq
    exact himported.hasSignal_iff.mpr ⟨entry, hlast, hname, hfound⟩

/-- A database with a message of two signals. -/
def twoSignals : String :=
  "<NetworkDefinition><Node><TxMessage><ID>16</ID><Name>body</Name>" ++
  "<Signal><Name>door</Name><Bitposition>4</Bitposition><Bitsize>2</Bitsize><Factor>1</Factor>" ++
  "<Offset>0</Offset><Minimum>0</Minimum><Maximum>3</Maximum></Signal>" ++
  "<Signal><Name>lamp</Name><Bitposition>8</Bitposition><Bitsize>1</Bitsize><Factor>1</Factor>" ++
  "<Offset>0</Offset><Minimum>0</Minimum><Maximum>1</Maximum></Signal>" ++
  "</TxMessage></Node></NetworkDefinition>"

/-- A message that refers to one signal, of which it says nothing. -/
def referringOnlyTo (name : String) : Value :=
  .object [("signals", .object [(name, .object [])])]

/-- Two spellings of one identifier, with a signal each. -/
def spelledTwice : Fields :=
  [("0x10", referringOnlyTo "door"), ("16", referringOnlyTo "lamp")]

theorem spelledTwice_ordered : (object spelledTwice).Ordered := by decide

/-- Importing for both spellings and for the first of them succeeds.  The database has both signals;
for both spellings the one that the first refers to is not imported. -/
theorem exists_importMessages_spelledTwice : ∃ d imported once,
    Database.ofText? twoSignals = some d ∧
      (importMessages "body.xml" (.ok twoSignals) spelledTwice).outcome = .ok imported ∧
      (importMessages "body.xml" (.ok twoSignals) (spelledTwice.take 1)).outcome = .ok once ∧
      (d.lookup? 16 "door").isSome ∧ (d.lookup? 16 "lamp").isSome ∧
      (object imported).at? ["0x10", "signals", "door"] = none := by
  have hany : ((Database.ofText? twoSignals).any fun d =>
      (d.extract "body.xml" spelledTwice).outcome.toOption.any fun imported =>
        (d.extract "body.xml" (spelledTwice.take 1)).outcome.toOption.any fun _ =>
          (d.lookup? 16 "door").isSome && ((d.lookup? 16 "lamp").isSome &&
            ((object imported).at? ["0x10", "signals", "door"]).isNone)) = true := by
    decide +kernel
  obtain ⟨d, hd, hany⟩ := (Option.any_eq_true _ _).mp hany
  obtain ⟨imported, himported, hany⟩ := Except.exists_of_any_toOption hany
  obtain ⟨once, honce, hany⟩ := Except.exists_of_any_toOption hany
  simp only [Bool.and_eq_true, Option.isNone_iff_eq_none] at hany
  rw [spelledTwice, ← importMessages_cons hd] at himported
  rw [spelledTwice, List.take_succ_cons, ← importMessages_cons hd] at honce
  exact ⟨d, imported, once, hd, himported, honce, hany⟩

theorem parse?_spelledTwice : ∀ entry ∈ spelledTwice, Identifier.parse? entry.1 = some 16 := by
  decide +kernel

theorem importMessages_hasSignal_iff_spelledTwice : ∃ d imported once,
    Database.ofText? twoSignals = some d ∧
      (importMessages "body.xml" (.ok twoSignals) spelledTwice).outcome = .ok imported ∧
      (importMessages "body.xml" (.ok twoSignals) (spelledTwice.take 1)).outcome = .ok once ∧
      HasSignal imported 16 "lamp" ∧ HasSignal once 16 "door" ∧
      ¬ ∀ id name, RefersWithin d spelledTwice id name → HasSignal imported id name := by
  obtain ⟨d, imported, once, hd, himported, honce, hdoor, hlamp, -⟩ :=
    exists_importMessages_spelledTwice
  obtain ⟨hkept, hall, -⟩ := importMessages_hasSignal_iff hd himported
  obtain ⟨-, -, hsingle⟩ := importMessages_hasSignal_iff hd honce
  have hfirst : Identifier.parse? "0x10" = some 16 := parse?_spelledTwice _ (List.mem_cons_self ..)
  have hlast : d.lastServed? 16 spelledTwice = some ("16", referringOnlyTo "lamp") := by
    apply List.find?_cons_of_pos
    exact serves_iff.mpr
      ⟨parse?_spelledTwice _ (List.mem_of_mem_tail List.mem_cons_self), _, List.mem_cons_self, hlamp⟩
  refine ⟨d, imported, once, hd, himported, honce, ?_, ?_, fun h => ?_⟩
  · exact (hkept 16 "lamp").mpr ⟨_, hlast, List.mem_cons_self, hlamp⟩
  · apply hsingle
    · intro entry hentry other hother _
      rw [List.mem_singleton.mp hentry, List.mem_singleton.mp hother]
    · exact ⟨_, List.mem_cons_self, hfirst, List.mem_cons_self, hdoor⟩
  · -- The second spelling is served last and does not refer to the door.
    have hmem := hall.mp h 16 "door" ⟨_, List.mem_cons_self, hfirst, List.mem_cons_self, hdoor⟩ _ hlast
    exact absurd (List.mem_singleton.mp hmem) (by decide)

/-- A signal that is referred to can be lost, though the database has it. -/
theorem not_forall_hasSignal :
    ¬ ∀ (path text : String) (d : Database) (messages imported : Fields),
      Database.ofText? text = some d → (object messages).Ordered →
        (importMessages path (.ok text) messages).outcome = .ok imported →
          ∀ id name, RefersWithin d messages id name → HasSignal imported id name := by
  intro hall
  obtain ⟨d, imported, -, hd, himported, -, hdoor, -, hlost⟩ := exists_importMessages_spelledTwice
  have hkey : Identifier.key 16 = "0x10" := by decide +kernel
  have hrefers : RefersWithin d spelledTwice 16 "door" :=
    ⟨_, List.mem_cons_self, parse?_spelledTwice _ List.mem_cons_self, List.mem_cons_self, hdoor⟩
  obtain ⟨v, hv⟩ := hall _ _ d _ imported hd spelledTwice_ordered himported 16 "door" hrefers
  rw [hkey, hlost] at hv
  cases hv

end Network

end CanTables
