import CanTables.Proofs.Assembly.Versions
import CanTables.Proofs.Document.Foreign
import CanTables.Proofs.Store.Versions

/-!
# CanTables.Proofs.Assembly.Respell — assembling two versions of a file tree

Between two versions of a catalog in which messages spell identifiers in other ways, lineages have
the same shape (`Respelled.lineage`) and mappings contribute the same (`Respelled.mappings`): a
mapping is one file, in which no identifier has a second spelling to be laid over.  So only the
lineage of the set itself can make a difference (`Respelled.assemble_iff`).
-/

namespace CanTables

open Declaration Document Schema Value Positions Lineage

/-! ## Lineages -/

/-- A file that spells no identifier twice is a respelling of itself. -/
theorem Differ.refl_of_once {v : Value} (once : SpelledOnce v.messages) : Differ Respelled v v := by
  refine ⟨rfl, ?_⟩
  by_cases hobject : ∃ m, v.field? messagesKey = some (.object m)
  · obtain ⟨m, hm⟩ := hobject
    have hmessages : v.messages = m := by
      rw [Value.messages, hm]
      rfl
    rw [hmessages] at once
    rw [hm]
    exact .objects ⟨once, fun _ => rfl, fun _ _ => rfl⟩
  · exact .same fun m hm => hobject ⟨m, hm⟩

theorem Versions.differ {v v' : Value} (h : Versions v v') (once : SpelledOnce v.messages) :
    Differ Respelled v v' := by
  rcases h with rfl | h
  · exact Differ.refl_of_once once
  · exact h

theorem field?_eraseField_of_ne {key other : String} (h : other ≠ key) (v : Value) :
    (v.eraseField key).field? other = v.field? other := by
  cases v with
  | object fields =>
    show Keyed.get? (Keyed.erase fields key) other = Keyed.get? fields other
    rw [Keyed.get?_erase, if_neg h]
  | _ => rfl

theorem eraseField_comm (v : Value) (key other : String) :
    (v.eraseField key).eraseField other = (v.eraseField other).eraseField key := by
  cases v with
  | object fields =>
    show Value.object (Keyed.erase (Keyed.erase fields key) other) =
      .object (Keyed.erase (Keyed.erase fields other) key)
    rw [Keyed.erase, Keyed.erase, Keyed.erase, Keyed.erase, List.filter_comm]
  | _ => rfl

/-- Two versions of a file agree under any key but that of the messages. -/
theorem Differ.field?_eq {Q : Fields → Fields → Prop} {v v' : Value} (h : Differ Q v v')
    {key : String} (hkey : key ≠ messagesKey) : v.field? key = v'.field? key := by
  rw [← field?_eraseField_of_ne hkey v, h.rest, field?_eraseField_of_ne hkey]

theorem Versions.field?_eq {v v' : Value} (h : Versions v v') {key : String}
    (hkey : key ≠ messagesKey) : v.field? key = v'.field? key := by
  rcases h with rfl | h
  · rfl
  · exact h.field?_eq hkey

theorem Versions.eraseField {v v' : Value} (h : Versions v v') {key : String}
    (hkey : messagesKey ≠ key) : Versions (v.eraseField key) (v'.eraseField key) := by
  rcases h with rfl | h
  · exact .inl rfl
  · refine .inr ⟨?_, ?_⟩
    · rw [eraseField_comm, h.rest, eraseField_comm]
    · rw [field?_eraseField_of_ne hkey, field?_eraseField_of_ne hkey]
      exact h.messages

theorem Lineage.Alike.imp_of_mem {R S : Value → Value → Prop} {lineage lineage' : Lineage}
    (h : Alike R lineage lineage') (imp : ∀ v ∈ lineage.files, ∀ v', R v v' → S v v') :
    Alike S lineage lineage' := by
  induction lineage generalizing lineage' with
  | node path own parents ih =>
    cases h with
    | @node _ _ own' _ parents' file below =>
      rw [files_node] at imp
      obtain ⟨hown, hbelow⟩ := List.forall_mem_cons.mp imp
      refine .node path (hown own' file) ?_
      refine forall₂_of_mem below fun parent parent' hmem _ hparent => ?_
      exact ih parent hmem hparent fun v hv =>
        hbelow v (mem_filesOfAll_iff.mpr ⟨parent, hmem, hv⟩)

namespace Catalog

variable {c c' : Catalog}

/-- What has a lineage in one version has one of the same shape in the other. -/
theorem Respelled.lineage (h : c.Respelled c') {lineage : Lineage} {branch : List Location}
    {name : String} (hlineage : (c.lineageBelow branch name).outcome = .ok lineage) :
    ∃ lineage', (c'.lineageBelow branch name).outcome = .ok lineage' ∧
      Alike Versions lineage lineage' := by
  induction lineage generalizing branch name with
  | node path own parents ih =>
    obtain ⟨found, value, names, parents', hread, hnew, hnames, hparents, heq⟩ :=
      lineageBelow_eq_ok_iff.mp hlineage
    cases heq
    obtain ⟨found', value', hread', hfile, hversions⟩ := h.readValue hread
    obtain ⟨parents', hparents', halike⟩ := exists_forall₂_of_forall₂ hparents
      fun parent below hbelow hparent => ih below hbelow hparent
    -- Both versions name the same parents, as they differ in their messages only.
    have hfield : value.field? parentsKey = value'.field? parentsKey :=
      hversions.field?_eq (by decide)
    have hnames' : parentNames found'.path value' = .ok names := by
      rw [← hnames, parentNames, parentNames, hfield, hfile.path]
    refine ⟨_, lineageBelow_eq_ok_iff.mpr ⟨found', value', names, parents', hread', ?_, hnames', ?_,
      rfl⟩, ?_⟩
    · rw [← hfile.place]
      exact hnew
    · rw [← hfile.place]
      exact hparents'
    · rw [← hfile.path]
      exact .node found.path (hversions.eraseField (by decide)) halike

end Catalog

/-! ## Mappings -/

theorem Respelled.sameMessages {m m' : Fields} (h : Respelled m m') : SameMessages m m' :=
  ⟨fun id => by rw [h.said id], h.other⟩

/-- Messages of one file come out the same under canonical keys in both versions. -/
theorem canonicalKeys_of_versions {Q : Fields → Fields → Prop} {m m' : Fields}
    (h : m' = m ∨ Q m m') (hQ : ∀ m m', Q m m' → SameMessages m m') {canonical : Fields} :
    canonicalKeys m = .ok canonical ↔ canonicalKeys m' = .ok canonical := by
  rcases h with rfl | h
  · exact Iff.rfl
  · exact (hQ m m' h).canonicalKeys_iff

namespace Network

/-- A text that holds a value is no database: nothing is imported from it unless no messages ask for
anything, and then the text does not matter. -/
theorem importMessages_of_value {path text : String} {v : Document.Value}
    (read : Document.Value.ofText? maxDepth text = some v) {messages imported : Fields}
    (himport : (importMessages path (.ok text) messages).outcome = .ok imported)
    (text' : Except Fault String) :
    (importMessages path text' messages).outcome = .ok imported := by
  unfold importMessages at himport ⊢
  cases hempty : messages.isEmpty with
  | true =>
    rw [hempty] at himport
    exact himport
  | false =>
    rw [hempty, if_neg Bool.false_ne_true] at himport
    obtain ⟨text'', htext, himport⟩ := Run.bind_outcome_eq_ok_iff.mp himport
    obtain rfl : text = text'' := Except.ok.inj htext
    rw [Database.ofText?_eq_none read] at himport
    cases himport

/-- What a file says as a database is the same in both versions: a respelled file is none. -/
theorem importMessages_of_sameFile {s s' : Store} {found : s.FoundFile} {found' : s'.FoundFile}
    (h : SameFile found found') {messages imported : Fields}
    (himport : (importMessages found.path (Catalog.textOf found) messages).outcome =
      .ok imported) :
    (importMessages found'.path (Catalog.textOf found') messages).outcome = .ok imported := by
  obtain ⟨path, place, content, isFile⟩ := found
  obtain ⟨path', place', content', isFile'⟩ := found'
  obtain rfl : path = path' := h.path
  have hcontent : content.Respelled content' := h.content
  cases hcontent with
  | same => exact himport
  | text read _ _ => exact importMessages_of_value read himport _

end Network

namespace Catalog

variable {c c' : Catalog}

theorem Respelled.importUnder (h : c.Respelled c') {origin : Origin} {database : Option String}
    {messages imported : Fields}
    (himport : (c.importUnder origin database messages).outcome = .ok imported) :
    (c'.importUnder origin database messages).outcome = .ok imported := by
  cases database with
  | none => exact himport
  | some name =>
    obtain ⟨found, hfind, himport⟩ := Run.bind_outcome_eq_ok_iff.mp himport
    obtain ⟨extracted, hextracted, himport⟩ := Run.bind_outcome_eq_ok_iff.mp himport
    obtain ⟨-, -, himport⟩ := Run.bind_outcome_eq_ok_iff.mp himport
    obtain ⟨found', hfind', hfile⟩ := h.find hfind
    refine Run.bind_outcome_eq_ok_iff.mpr ⟨found', hfind', ?_⟩
    refine Run.bind_outcome_eq_ok_iff.mpr
      ⟨extracted, Network.importMessages_of_sameFile hfile hextracted, ?_⟩
    exact Run.bind_outcome_eq_ok_iff.mpr ⟨(), rfl, himport⟩

/-- The bus of a reference, if it gives one, is a bus of the set. -/
def checkBus (hasBus : String → Bool) (r : MappingReference) : Except Fault Unit :=
  match r.bus with
  | none => .ok ()
  | some bus => if hasBus bus then .ok () else .error (.undefinedMappingBus bus r.mapping)

/-- What a mapping contributes that is not left out, without the journal. -/
def contributionOf (c : Catalog) (set : String) (r : MappingReference) :
    Except Fault Contribution := do
  let (found, value) ← c.readValue r.mapping
  let file ← readRecord MappingFile.read ("mapping " ++ found.path) value
  let messages ← canonicalKeys file.messages
  let imported ← (c.importUnder (.ofSet set) r.database messages).outcome
  return r.contribution file imported

theorem mapping_outcome (c : Catalog) (settings : Settings) (set : String)
    (hasBus : String → Bool) (r : MappingReference) :
    (c.mapping settings set hasBus r).outcome =
      if !r.enabled && settings.skipDisabledMappings then .ok .none
      else checkBus hasBus r >>= fun _ => c.contributionOf set r := by
  unfold mapping checkBus contributionOf
  cases r.bus with
  | none =>
    simp only [apply_ite Run.outcome, Run.outcome_bind, Run.outcome_report, Run.outcome_lift,
      Except.ok_bind, ite_self, Run.pure_outcome, Except.pure_eq_ok]
  | some bus =>
    simp only [apply_ite Run.outcome, Run.outcome_bind, Run.outcome_report, Run.outcome_lift,
      Except.ok_bind, ite_self, Run.pure_outcome, Except.pure_eq_ok, Run.outcome_fail]
    cases hasBus bus <;> rfl

theorem Respelled.contributionOf (h : c.Respelled c') {set : String} {r : MappingReference}
    {contribution : Contribution} (hr : c.contributionOf set r = .ok contribution) :
    c'.contributionOf set r = .ok contribution := by
  obtain ⟨⟨found, value⟩, hread, hr⟩ := Except.bind_eq_ok_iff.mp hr
  obtain ⟨file, hfile, hr⟩ := Except.bind_eq_ok_iff.mp hr
  obtain ⟨messages, hmessages, hr⟩ := Except.bind_eq_ok_iff.mp hr
  obtain ⟨imported, himport, hr⟩ := Except.bind_eq_ok_iff.mp hr
  obtain rfl := Except.ok.inj hr
  obtain ⟨found', value', hread', -, hversions⟩ := h.readValue hread
  have hrecord : ∃ messages', MappingFile.read value' = .ok { file with messages := messages' } ∧
      (messages' = file.messages ∨ CanTables.Respelled file.messages messages') := by
    rcases hversions with rfl | hdiffer
    · exact ⟨file.messages, readRecord_eq_ok_iff.mp hfile, .inl rfl⟩
    · lift value to OrderedValue using readValue_ordered hread
      lift value' to OrderedValue using readValue_ordered hread'
      exact MappingFile.read_differ hdiffer (readRecord_eq_ok_iff.mp hfile)
  obtain ⟨messages', hfile', hsame⟩ := hrecord
  have hmessages' : canonicalKeys messages' = .ok messages :=
    (canonicalKeys_of_versions hsame fun _ _ => CanTables.Respelled.sameMessages).mp hmessages
  refine Except.bind_eq_ok_iff.mpr ⟨(found', value'), hread', ?_⟩
  refine Except.bind_eq_ok_iff.mpr ⟨_, readRecord_eq_ok_iff.mpr hfile', ?_⟩
  refine Except.bind_eq_ok_iff.mpr ⟨messages, hmessages', ?_⟩
  exact Except.bind_eq_ok_iff.mpr ⟨imported, h.importUnder himport, rfl⟩

/-- All references contribute the same in both versions. -/
theorem Respelled.mappings (h : c.Respelled c') {settings : Settings} {set : String}
    {hasBus : String → Bool} {references : List MappingReference} {contribution : Contribution}
    (hmappings : (c.mappings settings set hasBus references).outcome = .ok contribution) :
    (c'.mappings settings set hasBus references).outcome = .ok contribution := by
  obtain ⟨parts, hparts, hmappings⟩ := Run.bind_outcome_eq_ok_iff.mp hmappings
  refine Run.bind_outcome_eq_ok_iff.mpr ⟨parts, ?_, hmappings⟩
  rw [Run.outcome_mapM, Except.mapM_eq_ok_iff] at hparts ⊢
  refine hparts.imp fun r part hpart => ?_
  rw [mapping_outcome] at hpart ⊢
  split
  · next hskip =>
    rw [if_pos hskip] at hpart
    exact hpart
  · next hskip =>
    rw [if_neg hskip] at hpart
    obtain ⟨_, hbus, hpart⟩ := Except.bind_eq_ok_iff.mp hpart
    exact Except.bind_eq_ok_iff.mpr ⟨(), hbus, h.contributionOf hpart⟩

end Catalog

/-! ## Assembled sets -/

/-- Messages that come out the same under canonical keys are merged into the same drafts. -/
theorem mergeMessages_of_canonicalKeys {m m' : Fields}
    (h : ∀ canonical, canonicalKeys m = .ok canonical ↔ canonicalKeys m' = .ok canonical)
    {contributed : List (String × Value)} {drafts : Drafts}
    (hdrafts : mergeMessages contributed m = .ok drafts) :
    mergeMessages contributed m' = .ok drafts := by
  obtain ⟨below, hbelow, hdrafts⟩ := Except.bind_eq_ok_iff.mp hdrafts
  obtain ⟨canonical, hcanonical, hdrafts⟩ := Except.bind_eq_ok_iff.mp hdrafts
  refine Except.bind_eq_ok_iff.mpr ⟨below, hbelow, ?_⟩
  exact Except.bind_eq_ok_iff.mpr ⟨canonical, (h canonical).mp hcanonical, hdrafts⟩

namespace Catalog

variable {c c' : Catalog} {settings : Settings} {name : String}

/-- The message set of a file whose lineage is known. -/
def assembleLineage (c : Catalog) (settings : Settings) (lineage : Lineage) :
    Run MessageSet := do
  let file ← Run.lift (readRecord SetFile.read ("message set " ++ lineage.path) lineage.merged)
  let setName := file.name.getD usualSetName
  Run.report (.ofSet setName) .info ("Assembling message set from " ++ lineage.path)
  (← c.draft settings setName file).resolve

theorem assemble_eq_bind (c : Catalog) (settings : Settings) (name : String) :
    c.assemble settings name = c.lineage name >>= c.assembleLineage settings := rfl

theorem Respelled.draft (h : c.Respelled c') {file : SetFile} {messages : Fields}
    (same : ∀ canonical,
      canonicalKeys file.messages = .ok canonical ↔ canonicalKeys messages = .ok canonical)
    {d : SetDraft} (hd : (c.draft settings name file).outcome = .ok d) :
    (c'.draft settings name { file with messages }).outcome = .ok d := by
  obtain ⟨_, hspeeds, hd⟩ := Run.bind_outcome_eq_ok_iff.mp hd
  obtain ⟨contribution, hcontribution, hd⟩ := Run.bind_outcome_eq_ok_iff.mp hd
  obtain ⟨drafts, hdrafts, hd⟩ := Run.bind_outcome_eq_ok_iff.mp hd
  refine Run.bind_outcome_eq_ok_iff.mpr ⟨(), hspeeds, ?_⟩
  refine Run.bind_outcome_eq_ok_iff.mpr ⟨contribution, h.mappings hcontribution, ?_⟩
  exact Run.bind_outcome_eq_ok_iff.mpr ⟨drafts, mergeMessages_of_canonicalKeys same hdrafts, hd⟩

/-- Lineages that make up the same messages are assembled to the same set in both versions. -/
theorem Respelled.assembleLineage (h : c.Respelled c') {l l' : OrderedLineage}
    (differ : Differ SameMessages l.merged l'.merged) {s : MessageSet}
    (hs : (c.assembleLineage settings l).outcome = .ok s) :
    (c'.assembleLineage settings l').outcome = .ok s := by
  obtain ⟨file, hfile, hs⟩ := Run.bind_outcome_eq_ok_iff.mp hs
  obtain ⟨-, -, hs⟩ := Run.bind_outcome_eq_ok_iff.mp hs
  obtain ⟨d, hd, hs⟩ := Run.bind_outcome_eq_ok_iff.mp hs
  obtain ⟨messages, hfile', hsame⟩ := SetFile.read_differ differ (readRecord_eq_ok_iff.mp hfile)
  refine Run.bind_outcome_eq_ok_iff.mpr ⟨_, readRecord_eq_ok_iff.mpr hfile', ?_⟩
  refine Run.bind_outcome_eq_ok_iff.mpr ⟨(), rfl, ?_⟩
  refine Run.bind_outcome_eq_ok_iff.mpr ⟨d, h.draft (fun canonical => ?_) hd, hs⟩
  exact canonicalKeys_of_versions hsame fun _ _ => id

/-- Two versions of a lineage in which the layers of every identifier come to lie over each other as
before are assembled to the same set. -/
theorem Respelled.assembleLineage_iff (h : c.Respelled c') {l l' : OrderedLineage}
    (alike : Alike (Differ CanTables.Respelled) l.lineage l'.lineage)
    (layers : ∀ id, KeepsLayers (Lineage.respellings id l l')) {s : MessageSet} :
    (c.assembleLineage settings l).outcome = .ok s ↔
      (c'.assembleLineage settings l').outcome = .ok s := by
  have differ := alike.sameMessages_merged layers
  constructor
  · exact h.assembleLineage differ
  · exact h.symm.assembleLineage (differ.symm fun _ _ => SameMessages.symm)

/-- A respelling leaves the assembled set as it is if in the lineage of the set the layers of every
identifier come to lie over each other as before. -/
theorem Respelled.assemble_iff (h : c.Respelled c') {lineage : Lineage}
    (hlineage : (c.lineage name).outcome = .ok lineage)
    (once : ∀ v ∈ lineage.files, SpelledOnce v.messages) :
    ∃ lineage', (c'.lineage name).outcome = .ok lineage' ∧
      ((∀ id, KeepsLayers (Lineage.respellings id lineage lineage')) → ∀ s,
        (c.assemble settings name).outcome = .ok s ↔
          (c'.assemble settings name).outcome = .ok s) := by
  obtain ⟨lineage', hlineage', hversions⟩ := h.lineage hlineage
  have alike : Alike (Differ CanTables.Respelled) lineage lineage' :=
    hversions.imp_of_mem fun v hv v' hvv' => hvv'.differ (once v hv)
  refine ⟨lineage', hlineage', fun layers s => ?_⟩
  have houtcome : (c'.lineage name).outcome = .ok lineage' := hlineage'
  rw [assemble_eq_bind, assemble_eq_bind, Run.outcome_bind, Run.outcome_bind, hlineage, houtcome]
  lift lineage to OrderedLineage using lineageBelow_ordered hlineage
  lift lineage' to OrderedLineage using lineageBelow_ordered hlineage'
  exact h.assembleLineage_iff alike layers

end Catalog

end CanTables
