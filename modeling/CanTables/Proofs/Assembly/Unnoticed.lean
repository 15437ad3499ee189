import CanTables.Proofs.Assembly.Absent

/-!
# CanTables.Proofs.Assembly.Unnoticed — a null that changes no set

A mapping file is edited: null is put in place of an absent attribute of a message object.  The set
that refers to the file comes out the same if the references stamp nothing in that place
(`Catalog.assemble_of_addsNull`); the argument goes up from the messages of the file over what a
reference contributes to the drafts of the set.  A reference does stamp its flag and its bus, so a
message of a disabled mapping is switched on by a null (`Catalog.not_forall_addsNull`).
-/

namespace CanTables

open Declaration Document Positions Schema Value

/-! ## Contributions -/

/-- The second contribution is accepted where the first one is, and says the same. -/
def Contribution.Repeats (p p' : Contribution) : Prop :=
  p' = { p with messages := p'.messages } ∧ List.Forall₂ Call.Repeats p.messages p'.messages

namespace Contribution

theorem Repeats.append {p p' q q' : Contribution} (h : p.Repeats p') (h' : q.Repeats q') :
    (p ++ q).Repeats (p' ++ q') := by
  obtain ⟨hp, hmessages⟩ := h
  obtain ⟨hq, hmessages'⟩ := h'
  refine ⟨?_, List.rel_append hmessages hmessages'⟩
  rw [hp, hq]
  rfl

theorem Repeats.concat {parts parts' : List Contribution}
    (h : List.Forall₂ Contribution.Repeats parts parts') :
    (Contribution.concat parts).Repeats (Contribution.concat parts') := by
  induction h with
  | nil => exact ⟨rfl, .nil⟩
  | cons hpart _ ih => exact hpart.append ih

end Contribution

/-- A reference contributes the same from messages that are the same but for null where it stamps
nothing. -/
theorem Declaration.MappingReference.contribution_repeats {r : MappingReference}
    {a : MessageAttribute} (ha : a ≠ .signals) (hr : r.defaults a = none) {file : MappingFile}
    {messages : Fields} {canonical canonical' : OrderedObject}
    (h : List.Forall₂ (fun entry entry' => entry.1 = entry'.1 ∧
      SameBut (Record.key a) entry.2 entry'.2) canonical.fields canonical'.fields) :
    (r.contribution file canonical).Repeats
      (r.contribution { file with messages } canonical') := by
  refine ⟨rfl, ?_⟩
  show List.Forall₂ Call.Repeats (canonical.fields.map _) (canonical'.fields.map _)
  rw [List.forall₂_map_left_iff, List.forall₂_map_right_iff]
  refine forall₂_of_mem h fun entry entry' hmem hmem' ⟨hkey, hsame⟩ => ⟨hkey, fun said hsaid => ?_⟩
  have hentry := canonical.keys_ordered.get?_eq_some_iff.mpr hmem
  have hentry' := canonical'.keys_ordered.get?_eq_some_iff.mpr hmem'
  have hsame : SameBut (Record.key a) (canonical.valueAt hentry) (canonical'.valueAt hentry') :=
    hsame
  rw [← hkey]
  exact Statement.read_stamp_of_sameBut ha hr hsame hsaid

/-! ## Files -/

/-- Two values that hold one mapping file, but for null in place of an absent attribute. -/
def Declaration.MappingFile.AddsNull (a : MessageAttribute) (v v' : Value) : Prop :=
  ∃ file messages, MappingFile.read v = .ok file ∧
    MappingFile.read v' = .ok { file with messages } ∧ CanTables.AddsNull a file.messages messages

/-- Two values that hold one mapping file, but for null under a key of its messages. -/
def Declaration.MappingFile.SameButUnder (key : String) (v v' : Value) : Prop :=
  ∃ (file : MappingFile) (messages messages' : Fields),
    MappingFile.read v = .ok { file with messages } ∧
    MappingFile.read v' = .ok { file with messages := messages' } ∧
    CanTables.SameButUnder key messages messages'

theorem Declaration.MappingFile.SameButUnder.symm {key : String} {v v' : Value}
    (h : MappingFile.SameButUnder key v v') : MappingFile.SameButUnder key v' v := by
  obtain ⟨file, messages, messages', hv, hv', hsame⟩ := h
  exact ⟨file, messages', messages, hv', hv, hsame.symm⟩

theorem Declaration.MappingFile.AddsNull.sameButUnder {a : MessageAttribute} {v : OrderedValue}
    {v' : Value} (h : MappingFile.AddsNull a v v') :
    MappingFile.SameButUnder (Record.key a) v v' := by
  obtain ⟨file, messages, hread, hread', hadds⟩ := h
  let shared : OrderedObject := ⟨file.messages, MappingFile.messages_ordered hread⟩
  have hadds : CanTables.AddsNull a shared messages := hadds
  exact ⟨file, shared, messages, hread, hread', hadds.sameButUnder⟩

namespace Catalog

/-- A message set refers to a mapping file. -/
def Refers (c : Catalog) (name : String) (r : MappingReference) : Prop :=
  ∃ lineage file, (c.lineage name).outcome = .ok lineage ∧
    SetFile.read lineage.merged = .ok file ∧ r ∈ file.mappings

/-- A reference that is of no consequence for an attribute of the messages in the file at a place:
it is left out, goes to another file, or has no database and stamps nothing on the attribute. -/
def Ignores (c : Catalog) (settings : Settings) (place : Location) (a : MessageAttribute)
    (r : MappingReference) : Prop :=
  settings.leavesOut r = false → c.StandsFor r.mapping place →
    r.database = none ∧ r.defaults a = none

namespace EditedAt

variable {c c' : Catalog} {place : Location} {v v' : Value} {settings : Settings}

/-- What is imported stays the same: the file that is edited holds a value, so it is no
database. -/
theorem importUnder (h : c.EditedAt c' place v v') {origin : Origin} {database : Option String}
    {messages imported : Fields}
    (himport : (c.importUnder origin database messages).outcome = .ok imported) :
    (c'.importUnder origin database messages).outcome = .ok imported := by
  cases database with
  | none => exact himport
  | some name =>
    obtain ⟨found, hfind, himport⟩ := Run.bind_outcome_eq_ok_iff.mp himport
    obtain ⟨extracted, hextracted, himport⟩ := Run.bind_outcome_eq_ok_iff.mp himport
    obtain ⟨-, -, himport⟩ := Run.bind_outcome_eq_ok_iff.mp himport
    obtain ⟨found', hfind', hpath, hplace⟩ := h.find hfind
    refine Run.bind_outcome_eq_ok_iff.mpr ⟨found', hfind', ?_⟩
    refine Run.bind_outcome_eq_ok_iff.mpr ⟨extracted, ?_, ?_⟩
    · rw [hpath]
      by_cases heq : found.place = place
      · obtain ⟨text, hitem, hread⟩ := h.store.holds
        have hcontent : found.content = .text text := by
          have hfile := found.isFile
          rw [heq, hitem, Option.some.injEq, Item.file.injEq] at hfile
          exact hfile.symm
        have htext : textOf found = .ok text := by
          rw [textOf, hcontent]
        rw [htext] at hextracted
        exact Network.importMessages_of_value hread hextracted _
      · have hcontent : found'.content = found.content := by
          have hfile := found'.isFile
          rw [hplace, h.store.item?_of_ne _ heq, found.isFile, Option.some.injEq,
            Item.file.injEq] at hfile
          exact hfile.symm
        have htext : textOf found' = textOf found := by
          rw [textOf, textOf, hcontent, hpath]
        rw [htext]
        exact hextracted
    · exact Run.bind_outcome_eq_ok_iff.mpr ⟨(), rfl, himport⟩

variable {a : MessageAttribute}

/-- A reference contributes what it did before the edit. -/
theorem contributionOf (h : c.EditedAt c' place v v') (ha : a ≠ .signals)
    (same : MappingFile.SameButUnder (Record.key a) v v') {set : String} {r : MappingReference}
    (hr : c.StandsFor r.mapping place → r.database = none ∧ r.defaults a = none)
    {p : Contribution} (hp : c.contributionOf set r = .ok p) :
    ∃ p', c'.contributionOf set r = .ok p' ∧ p.Repeats p' := by
  obtain ⟨⟨found, value⟩, hread, hp⟩ := Except.bind_eq_ok_iff.mp hp
  obtain ⟨file, hfile, hp⟩ := Except.bind_eq_ok_iff.mp hp
  obtain ⟨canonical, hcanonical, hp⟩ := Except.bind_eq_ok_iff.mp hp
  obtain ⟨imported, himport, hp⟩ := Except.bind_eq_ok_iff.mp hp
  obtain rfl := Except.ok.inj hp
  obtain ⟨found', value', hread', hpath, -, hvalue⟩ := h.readValue hread
  rcases hvalue with ⟨-, rfl⟩ | ⟨hplace, rfl, rfl⟩
  · refine ⟨_, ?_, rfl, List.forall₂_same.mpr fun call _ => ⟨rfl, fun _ hsaid => hsaid⟩⟩
    refine Except.bind_eq_ok_iff.mpr ⟨(found', value'), hread', ?_⟩
    refine Except.bind_eq_ok_iff.mpr ⟨file, by rw [hpath]; exact hfile, ?_⟩
    refine Except.bind_eq_ok_iff.mpr ⟨canonical, hcanonical, ?_⟩
    exact Except.bind_eq_ok_iff.mpr ⟨imported, h.importUnder himport, rfl⟩
  · obtain ⟨hdatabase, hdefaults⟩ := hr ⟨found, (readValue_eq_ok_iff.mp hread).1, hplace⟩
    obtain ⟨shared, messages, messages', hfile₀, hfile', hsame⟩ := same
    obtain rfl := Except.ok.inj (hfile₀.symm.trans (readRecord_eq_ok_iff.mp hfile))
    obtain ⟨canonical', hcanonical', halike⟩ := hsame.canonicalKeys hcanonical
    rw [hdatabase] at himport
    obtain rfl := Except.ok.inj himport
    lift value to OrderedValue using readValue_ordered hread
    lift value' to OrderedValue using readValue_ordered hread'
    lift canonical to OrderedObject using
      canonicalKeys_ordered ⟨_, MappingFile.messages_ordered hfile₀⟩ hcanonical
    lift canonical' to OrderedObject using
      canonicalKeys_ordered ⟨_, MappingFile.messages_ordered hfile'⟩ hcanonical'
    refine ⟨r.contribution { shared with messages := messages' } canonical', ?_, ?_⟩
    · refine Except.bind_eq_ok_iff.mpr ⟨(found', value'), hread', ?_⟩
      refine Except.bind_eq_ok_iff.mpr ⟨_, readRecord_eq_ok_iff.mpr hfile', ?_⟩
      refine Except.bind_eq_ok_iff.mpr ⟨canonical', hcanonical', ?_⟩
      refine Except.bind_eq_ok_iff.mpr ⟨canonical', ?_, rfl⟩
      rw [hdatabase]
      rfl
    · exact r.contribution_repeats ha hdefaults halike

theorem mappings (h : c.EditedAt c' place v v') (ha : a ≠ .signals)
    (same : MappingFile.SameButUnder (Record.key a) v v') {set : String}
    {hasBus : String → Bool} {references : List MappingReference}
    (ignores : ∀ r ∈ references, c.Ignores settings place a r) {p : Contribution}
    (hp : (c.mappings settings set hasBus references).outcome = .ok p) :
    ∃ p', (c'.mappings settings set hasBus references).outcome = .ok p' ∧ p.Repeats p' := by
  obtain ⟨parts, hparts, hp⟩ := Run.bind_outcome_eq_ok_iff.mp hp
  cases hp
  rw [Run.outcome_mapM, Except.mapM_eq_ok_iff] at hparts
  have hmapping : ∀ r part, r ∈ references → part ∈ parts →
      (c.mapping settings set hasBus r).outcome = .ok part →
      ∃ part', (c'.mapping settings set hasBus r).outcome = .ok part' ∧ part.Repeats part' := by
    intro r part hmem _ hpart
    rw [mapping_outcome] at hpart ⊢
    split
    · next hskip =>
      rw [if_pos hskip] at hpart
      cases hpart
      exact ⟨.none, rfl, rfl, .nil⟩
    · next hskip =>
      rw [if_neg hskip] at hpart
      obtain ⟨_, hbus, hpart⟩ := Except.bind_eq_ok_iff.mp hpart
      obtain ⟨part', hpart', hrepeats⟩ :=
        h.contributionOf ha same (ignores r hmem (Bool.eq_false_iff.mpr hskip)) hpart
      exact ⟨part', Except.bind_eq_ok_iff.mpr ⟨(), hbus, hpart'⟩, hrepeats⟩
  obtain ⟨parts', hparts', hrepeats⟩ :=
    exists_forall₂_of_forall₂ (forall₂_of_mem hparts hmapping) fun _ _ _ hpart => hpart
  refine ⟨.concat parts', Run.bind_outcome_eq_ok_iff.mpr ⟨parts', ?_, rfl⟩, .concat hrepeats⟩
  rw [Run.outcome_mapM, Except.mapM_eq_ok_iff]
  exact hparts'

/-- The drafts of a set are what they were before the edit, and so is everything else in it. -/
theorem draft (h : c.EditedAt c' place v v') (ha : a ≠ .signals)
    (same : MappingFile.SameButUnder (Record.key a) v v') {name : String} {file : SetFile}
    (ignores : ∀ r ∈ file.mappings, c.Ignores settings place a r) {d : SetDraft}
    (hd : (c.draft settings name file).outcome = .ok d) :
    (c'.draft settings name file).outcome = .ok d := by
  obtain ⟨_, hspeeds, hd⟩ := Run.bind_outcome_eq_ok_iff.mp hd
  obtain ⟨contribution, hcontribution, hd⟩ := Run.bind_outcome_eq_ok_iff.mp hd
  obtain ⟨drafts, hdrafts, hd⟩ := Run.bind_outcome_eq_ok_iff.mp hd
  obtain ⟨contribution', hcontribution', hrest, hmessages⟩ :=
    h.mappings ha same ignores hcontribution
  refine Run.bind_outcome_eq_ok_iff.mpr ⟨(), hspeeds, ?_⟩
  refine Run.bind_outcome_eq_ok_iff.mpr ⟨contribution', hcontribution', ?_⟩
  refine Run.bind_outcome_eq_ok_iff.mpr ⟨drafts, ?_, ?_⟩
  · obtain ⟨below, hbelow, hdrafts⟩ := Except.bind_eq_ok_iff.mp hdrafts
    exact Except.bind_eq_ok_iff.mpr
      ⟨below, Drafts.foldlM_add_of_repeats hmessages hbelow, hdrafts⟩
  · rw [hrest]
    exact hd

/-- A set that is assembled before the edit is assembled after it. -/
theorem assemble (h : c.EditedAt c' place v v') (ha : a ≠ .signals)
    (same : MappingFile.SameButUnder (Record.key a) v v') {name : String}
    (apart : ∀ other, c.Reaches name other → ¬ c.StandsFor other place)
    (ignores : ∀ r, c.Refers name r → c.Ignores settings place a r) {s : MessageSet}
    (hs : (c.assemble settings name).outcome = .ok s) :
    (c'.assemble settings name).outcome = .ok s := by
  obtain ⟨lineage, hlineage, hs⟩ := Run.bind_outcome_eq_ok_iff.mp hs
  obtain ⟨file, hfile, hs⟩ := Run.bind_outcome_eq_ok_iff.mp hs
  obtain ⟨-, -, hs⟩ := Run.bind_outcome_eq_ok_iff.mp hs
  obtain ⟨d, hd, hs⟩ := Run.bind_outcome_eq_ok_iff.mp hs
  have hmappings : ∀ r ∈ file.mappings, c.Ignores settings place a r := fun r hr =>
    ignores r ⟨lineage, file, hlineage, readRecord_eq_ok_iff.mp hfile, hr⟩
  refine Run.bind_outcome_eq_ok_iff.mpr ⟨lineage, h.lineageBelow apart hlineage, ?_⟩
  refine Run.bind_outcome_eq_ok_iff.mpr ⟨file, hfile, ?_⟩
  refine Run.bind_outcome_eq_ok_iff.mpr ⟨(), rfl, ?_⟩
  exact Run.bind_outcome_eq_ok_iff.mpr ⟨d, h.draft ha same hmappings hd, hs⟩

/-- The references of a set are the same after the edit. -/
theorem refers (h : c.EditedAt c' place v v') {name : String}
    (apart : ∀ other, c.Reaches name other → ¬ c.StandsFor other place) {r : MappingReference}
    (hr : c.Refers name r) : c'.Refers name r := by
  obtain ⟨lineage, file, hlineage, hfile, hmem⟩ := hr
  exact ⟨lineage, file, h.lineageBelow apart hlineage, hfile, hmem⟩

theorem ignores (h : c.EditedAt c' place v v') {r : MappingReference}
    (hr : c.Ignores settings place a r) : c'.Ignores settings place a r := fun hkeep stands =>
  hr hkeep (h.symm.standsFor stands)

end EditedAt

variable {c c' : Catalog} {place : Location} {v v' : Value} {name : String} {a : MessageAttribute}

/-- Null in place of an absent attribute changes no set whose references stamp nothing in that place.
Where a reference does stamp, an object that lacks the attribute says what is stamped, and one that
has null says nothing about it. -/
theorem assemble_of_addsNull (edited : c.EditedAt c' place v v') (ha : a ≠ .signals)
    (adds : MappingFile.AddsNull a v v')
    (apart : ∀ other, c.Reaches name other → ¬ c.StandsFor other place) :
    (∀ settings, (∀ r, c.Refers name r → c.Ignores settings place a r) → ∀ s,
      (c'.assemble settings name).outcome = .ok s ↔ (c.assemble settings name).outcome = .ok s) ∧
    ∀ (r : MappingReference) (key : String) (fields : Fields), fields.Ordered →
      fields.get? (Record.key a) = none →
      Call.attributes (key, r.stamp (.object fields)) a = r.defaults a ∧
      Call.said (key, r.stamp (.object (fields.insert (Record.key a) .null))) =
        (Call.said (key, r.stamp (.object fields))).silencing a ∧
      (Call.said (key, r.stamp (.object (fields.insert (Record.key a) .null))) =
        Call.said (key, r.stamp (.object fields)) ↔ r.defaults a = none) := by
  refine ⟨fun settings ignores s => ?_, fun r key fields ordered absent => ?_⟩
  · lift v to OrderedValue using edited.holds.ordered
    have same := adds.sameButUnder
    refine ⟨edited.symm.assemble ha same.symm (edited.apart apart) fun r hr => ?_,
      edited.assemble ha same apart ignores⟩
    exact edited.ignores (ignores r (edited.symm.refers (edited.apart apart) hr))
  · lift fields to OrderedKeyed String Value using ordered
    have hlacking : Call.attributes (key, r.stamp (.object fields)) a = r.defaults a := by
      rw [r.attributes_stamp fields key ha, absent]
      rfl
    have hsilencing := Call.said_stamp_insert_null r key fields ha
    refine ⟨hlacking, hsilencing, ?_⟩
    rw [hsilencing, ← hlacking]
    exact Statement.silencing_eq_self_iff

/-! ## A mapping with one message -/

/-- The text of a mapping file with one message, which has null under the keys given. -/
def bodyText (nulls : List String) : String :=
  objectText [("messages", objectText [("0x10", objectText (nulls.map fun key => (key, "null")))])]

/-- What such a file holds. -/
def bodyValue (nulls : List String) : Value :=
  .object [("messages", .object [("0x10", .object (nulls.map fun key => (key, .null)))])]

/-- A set that refers to the file. -/
def bodySet (reference : List (String × String)) (nulls : List String) : Catalog := ofFiles [
  ("body.json", bodyText nulls),
  ("set.json", objectText [
    ("buses", objectText [("hs", objectText [("controller", "1"), ("speed", "500000")])]),
    ("mappings", "[" ++ objectText (("mapping", "\"body.json\"") :: reference) ++ "]")])]

theorem bodySet_editedAt (reference : List (String × String)) (nulls nulls' : List String)
    (h : Value.ofText? maxDepth (bodyText nulls) = some (bodyValue nulls))
    (h' : Value.ofText? maxDepth (bodyText nulls') = some (bodyValue nulls')) :
    (bodySet reference nulls).EditedAt (bodySet reference nulls') ["body.json"] (bodyValue nulls)
      (bodyValue nulls') where
  store := {
    item?_of_ne := by
      intro other hne
      have hbody : ((["body.json"] : Location) == other) = false := beq_eq_false_iff_ne.mpr hne.symm
      simp [Store.item?, bodySet, ofFiles, List.find?_cons, hbody]
    holds := ⟨_, rfl, h⟩
    holds' := ⟨_, rfl, h'⟩
    workingDirectory := rfl }
  directories := rfl

theorem bodyValue_addsNull (a : MessageAttribute) :
    MappingFile.AddsNull a (bodyValue []) (bodyValue [Record.key a]) := by
  refine ⟨_, _, rfl, rfl, "0x10", [], rfl, rfl, rfl, fun other v hget hlt => ?_⟩
  have honly : other = "0x10" :=
    List.mem_singleton.mp (Keyed.isSome_get?_iff.mp (Option.isSome_of_eq_some hget))
  exact absurd hlt (honly ▸ Std.lt_irrefl)

/-- The set file has no parents, so the mapping file is not among its ancestors. -/
theorem bodySet_apart (reference : List (String × String)) (nulls : List String)
    (h : ((bodySet reference nulls).readValue "set.json").toOption.any
      (fun read => read.1.place = ["set.json"] && (read.2.field? parentsKey).isNone) = true) :
    ∀ other, (bodySet reference nulls).Reaches "set.json" other →
      ¬ (bodySet reference nulls).StandsFor other ["body.json"] := by
  obtain ⟨⟨found, value⟩, hread, hplace⟩ := Except.exists_of_any_toOption h
  obtain ⟨hplace, hnone⟩ := Bool.and_eq_true_iff.mp hplace
  obtain ⟨hfind, holds⟩ := readValue_eq_ok_iff.mp hread
  have stands : (bodySet reference nulls).StandsFor "set.json" ["set.json"] :=
    ⟨found, hfind, of_decide_eq_true hplace⟩
  rw [of_decide_eq_true hplace] at holds
  have hparents : value.ListsParents [] := .absent (Option.isNone_iff_eq_none.mp hnone)
  intro other reached
  have hself : other = "set.json" := by
    induction reached with
    | start => rfl
    | parent _ stands' listed ih =>
      subst ih
      obtain ⟨w, names, hw, hnames, hmem⟩ := listed
      rw [stands'.unique stands] at hw
      rw [hw.unique holds] at hnames
      rw [hnames.unique hparents] at hmem
      cases hmem
  subst hself
  intro stands'
  exact absurd (stands'.unique stands) (by decide)

/-- The set refers to one mapping. -/
theorem bodySet_refers {reference : List (String × String)} {nulls : List String}
    {r : MappingReference}
    (h : ((bodySet reference nulls).lineage "set.json").outcome.toOption.any
      (fun lineage => (SetFile.read lineage.merged).toOption.any
        fun file => file.mappings = [r]) = true) {r' : MappingReference}
    (hr : (bodySet reference nulls).Refers "set.json" r') : r' = r := by
  obtain ⟨lineage, file, hlineage, hfile, hmem⟩ := hr
  rw [hlineage] at h
  have h : (SetFile.read lineage.merged).toOption.any (fun file => file.mappings = [r]) = true := h
  rw [hfile] at h
  have h : file.mappings = [r] := of_decide_eq_true h
  exact List.mem_singleton.mp (h ▸ hmem)

/-- The mapping is disabled and kept, and it names no bus: null for a bus is not noticed. -/
theorem assemble_of_addsNull_bus :
    ∃ s, ((bodySet [("enabled", "false")] []).assemble ⟨.cpp, false⟩
        "set.json").outcome = .ok s ∧
      ((bodySet [("enabled", "false")] ["bus"]).assemble ⟨.cpp, false⟩
        "set.json").outcome = .ok s ∧ s.messages.map (·.enabled) = [false] := by
  have hset : ((bodySet [("enabled", "false")] []).assemble ⟨.cpp, false⟩
      "set.json").outcome.toOption.any (fun s => s.messages.map (·.enabled) = [false]) = true := by
    decide +kernel
  obtain ⟨s, hs, henabled⟩ := Except.exists_of_any_toOption hset
  have edited := bodySet_editedAt [("enabled", "false")] [] ["bus"] rfl rfl
  have apart := bodySet_apart [("enabled", "false")] [] (by decide +kernel)
  obtain ⟨same, -⟩ := assemble_of_addsNull (a := .bus) edited nofun (bodyValue_addsNull .bus) apart
  refine ⟨s, hs, (same ⟨.cpp, false⟩ (fun r hr _ _ => ?_) s).mpr hs, of_decide_eq_true henabled⟩
  obtain rfl : r = ⟨"body.json", none, false, none⟩ := bodySet_refers (by decide +kernel) hr
  exact ⟨rfl, rfl⟩

/-- A kept disabled mapping says of its message that it is disabled; null under `enabled` takes
that away. -/
theorem not_forall_addsNull : ¬ ∀ (c c' : Catalog) (place : Location) (v v' : Value) (name : String)
    (a : MessageAttribute) (settings : Settings), c.EditedAt c' place v v' → a ≠ .signals →
    MappingFile.AddsNull a v v' →
    (∀ other, c.Reaches name other → ¬ c.StandsFor other place) →
    (∀ r, c.Refers name r → r.database = none) →
    ∀ s, (c'.assemble settings name).outcome = .ok s ↔
      (c.assemble settings name).outcome = .ok s := by
  intro h
  have hset : ((bodySet [("enabled", "false")] []).assemble ⟨.cpp, false⟩
      "set.json").outcome.toOption.any (fun s => s.messages.map (·.enabled) = [false]) = true := by
    decide +kernel
  have hset' : ((bodySet [("enabled", "false")] ["enabled"]).assemble
      ⟨.cpp, false⟩ "set.json").outcome.toOption.any
        (fun s => s.messages.map (·.enabled) = [true]) = true := by
    decide +kernel
  obtain ⟨s, hs, henabled⟩ := Except.exists_of_any_toOption hset
  obtain ⟨s', hs', henabled'⟩ := Except.exists_of_any_toOption hset'
  have edited := bodySet_editedAt [("enabled", "false")] [] ["enabled"] rfl rfl
  have apart := bodySet_apart [("enabled", "false")] [] (by decide +kernel)
  have hsame := (h _ _ _ _ _ "set.json" .enabled ⟨.cpp, false⟩ edited nofun
    (bodyValue_addsNull .enabled) apart (fun r hr => ?_) s').mp hs'
  · obtain rfl := Except.ok.inj (hs.symm.trans hsame)
    have hclash := (of_decide_eq_true henabled).symm.trans (of_decide_eq_true henabled')
    cases hclash
  · obtain rfl : r = ⟨"body.json", none, false, none⟩ := bodySet_refers (by decide +kernel) hr
    rfl

end Catalog

end CanTables
