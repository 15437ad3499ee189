import CanTables.Proofs.Assembly.Respell
import CanTables.Proofs.Assembly.Statement

/-!
# CanTables.Proofs.Assembly.Speaking — lineages in which two files speak

If all files of a lineage but two are silent, it makes up what those two do, wherever they are.  If
they give one message two names, the assembled set has that message only, and its name is the upper
file's unless the upper file's spelling is smaller (`Catalog.assembleLineage_of_two`).
-/

namespace CanTables

open Declaration Document Schema Value Lineage

/-! ## Files that say nothing -/

/-- A file that says nothing. -/
def silent : Value := .object []

theorem overlayEntry_silent_left (m : OrderedObject) :
    overlayEntry silent m.toValue = m.toValue := by
  rw [silent, overlayEntry_object, overlayFields_nil]

theorem overlayEntry_silent_right (m : OrderedObject) :
    overlayEntry m.toValue silent = m.toValue := by
  rw [silent, overlayEntry_object]
  rfl

namespace Document.Value

/-- Ordered objects make up an ordered object. -/
theorem Pile.exists_object (layers : List OrderedObject) {v : Value}
    (h : Pile (layers.map fun m => .object m.fields) v) : ∃ m : OrderedObject, v = m.toValue := by
  have hordered : v.Ordered := by
    refine Pile.ordered (layers.map OrderedObject.toValue) ?_
    rw [List.map_map]
    exact h
  obtain ⟨fields, rfl⟩ := h.isObject (List.forall_mem_map.mpr fun m _ => ⟨m.fields, rfl⟩)
  exact ⟨⟨fields, hordered⟩, rfl⟩

/-- Layers that say nothing can be left out. -/
theorem Pile.of_silent {layers : List (Option OrderedObject)} {v : Value}
    (h : Pile (layers.map fun o => .object (o.getD .empty).fields) v) :
    layers.reduceOption = [] ∧ v = silent ∨
      Pile (layers.reduceOption.map fun m => .object m.fields) v := by
  generalize hvalues : layers.map _ = values at h
  induction h generalizing layers with
  | single v =>
    obtain ⟨o, rfl, rfl⟩ := List.map_eq_singleton_iff.mp hvalues
    cases o with
    | none => exact .inl ⟨rfl, rfl⟩
    | some m => exact .inr (.single (.object m.fields))
  | @merge lower upper below above hbelow habove ih ih' =>
    obtain ⟨layers₁, layers₂, rfl, rfl, rfl⟩ := List.map_eq_append_iff.mp hvalues
    have hobject : ∀ {layers : List (Option OrderedObject)} {v : Value},
        Pile (layers.map fun o => .object (o.getD .empty).fields) v →
          ∃ m : OrderedObject, v = m.toValue := by
      intro layers v hpile
      refine Pile.exists_object (layers.map (·.getD .empty)) ?_
      rw [List.map_map]
      exact hpile
    obtain ⟨m, rfl⟩ := hobject hbelow
    obtain ⟨n, rfl⟩ := hobject habove
    rw [List.reduceOption_append, List.map_append]
    rcases ih rfl with ⟨hnil, hsilent⟩ | hpile
    · rw [hnil, List.map_nil, List.nil_append, List.nil_append, hsilent, overlayEntry_silent_left]
      exact ih' rfl
    · rcases ih' rfl with ⟨hnil, hsilent⟩ | hpile'
      · rw [hnil, List.map_nil, List.append_nil, List.append_nil, hsilent,
          overlayEntry_silent_right]
        exact .inr hpile
      · exact .inr (hpile.merge hpile')

end Document.Value

/-- A lineage in which two files speak, the upper one first, all others being silent. -/
def Lineage.Speaks (lineage : Lineage) (upper lower : OrderedObject) : Prop :=
  ∃ layers : List (Option OrderedObject),
    lineage.files = layers.map (fun o => .object (o.getD .empty).fields) ∧
      layers.reduceOption = [upper, lower]

namespace Lineage.Speaks

variable {lineage : Lineage} {upper lower : OrderedObject}

theorem ordered (h : lineage.Speaks upper lower) : lineage.Ordered := by
  obtain ⟨layers, hfiles, -⟩ := h
  rw [Lineage.Ordered, hfiles]
  exact List.forall_mem_map.mpr fun o _ => (o.getD .empty).ordered

/-- Such a lineage makes up what the two files do. -/
theorem merged_eq (h : lineage.Speaks upper lower) :
    lineage.merged = overlayEntry lower.toValue upper.toValue := by
  obtain ⟨layers, hfiles, htwo⟩ := h
  have hpile : Pile lineage.files.reverse lineage.merged := by
    apply pile_merged
    rw [hfiles]
    exact List.forall_mem_map.mpr fun o _ => ⟨(o.getD .empty).fields, rfl⟩
  have hreverse : layers.reverse.reduceOption = [lower, upper] := by
    rw [List.reduceOption, List.filterMap_reverse, ← List.reduceOption, htwo]
    rfl
  rw [hfiles, ← List.map_reverse] at hpile
  rcases hpile.of_silent with ⟨hnil, -⟩ | hpile
  · rw [hreverse] at hnil
    cases hnil
  · rw [hreverse] at hpile
    exact hpile.eq_of_pair

end Lineage.Speaks

/-! ## Files that say one thing -/

/-- A file that says one thing about one message. -/
def saying (key : String) (fields : Fields) : Value :=
  .object [(messagesKey, .object [(key, .object fields)])]

/-- Such a file with its order. -/
abbrev speaker (key : String) (m : OrderedObject) : OrderedObject :=
  .single messagesKey (OrderedObject.single key m.toValue).toValue

theorem spelled_singleton (id : UInt32) (key : String) (v : Value) :
    spelled id [(key, v)] = if Identifier.parse? key = some id then [(key, v)] else [] := by
  have hconcat := spelled_concat id [] (key, v)
  rw [List.nil_append] at hconcat
  rw [hconcat]
  rfl

theorem respelled_singleton {id : UInt32} {key key' : String}
    (hkey : Identifier.parse? key = some id) (hkey' : Identifier.parse? key' = some id)
    (v : Value) : Respelled [(key, v)] [(key', v)] where
  once := by
    intro other
    rw [spelled_singleton]
    split
    · exact Nat.le_refl 1
    · exact Nat.zero_le 1
  said := by
    intro other
    rw [spelled_singleton, spelled_singleton, hkey, hkey']
    split <;> rfl
  other := by
    intro other hother
    have hne : other ≠ key := by
      rintro rfl
      rw [hother] at hkey
      cases hkey
    have hne' : other ≠ key' := by
      rintro rfl
      rw [hother] at hkey'
      cases hkey'
    rw [Keyed.get?_cons, Keyed.get?_cons, if_neg hne, if_neg hne']

theorem respelled_saying {id : UInt32} {key key' : String}
    (hkey : Identifier.parse? key = some id) (hkey' : Identifier.parse? key' = some id)
    (fields : Fields) : Differ Respelled (saying key fields) (saying key' fields) :=
  ⟨rfl, .objects (respelled_singleton hkey hkey' _)⟩

/-- How two files spell an identifier that say one thing about one message. -/
theorem respellings_saying {id : UInt32} {key key' : String}
    (hkey : Identifier.parse? key = some id) (hkey' : Identifier.parse? key' = some id)
    (fields : Fields) (other : UInt32) :
    respellings other (saying key fields) (saying key' fields) =
      if id = other then [⟨key, key', .object fields⟩] else [] := by
  have hobject : respellings other (saying key fields) (saying key' fields) =
      List.zipWith (fun x y => ⟨x.1, y.1, x.2⟩) (spelled other [(key, Value.object fields)])
        (spelled other [(key', Value.object fields)]) := respellings_object rfl rfl
  rw [hobject, spelled_singleton, spelled_singleton, hkey, hkey']
  by_cases hother : id = other
  · rw [if_pos (congrArg some hother), if_pos (congrArg some hother), if_pos hother]
    rfl
  · have hne : some id ≠ some other := fun heq => hother (Option.some.inj heq)
    rw [if_neg hne, if_neg hne, if_neg hother]
    rfl

theorem respelled_silent : Differ Respelled silent silent :=
  ⟨rfl, .same fun _ heq => nomatch heq⟩

/-! ## Two names of one message -/

/-- The object that gives a message a name. -/
def named (name : String) : Fields := [("name", .text name)]

/-- That object with its order. -/
abbrev namer (name : String) : OrderedObject := .single "name" ⟨.text name, trivial⟩

theorem named_isObject (upper lower : String) :
    ∀ v ∈ [Value.object (named upper), Value.object (named lower)], v.IsObject := by
  intro v hv
  rcases List.mem_pair.mp hv with rfl | rfl
  · exact ⟨_, rfl⟩
  · exact ⟨_, rfl⟩

theorem overlay_named (below above : String) :
    overlay (.object (named below)) (.object (named above)) = .object (named above) := rfl

/-- The message objects of one file over those of another. -/
def messagesOfPair (ku : String) (upper : Value) (kl : String) (lower : Value) : Fields :=
  Keyed.upsert ku (fun
    | none => upper
    | some below => overlayEntry below upper) [(kl, lower)]

/-- Of two names the upper one counts unless its spelling is smaller. -/
theorem canonicalKeys_messagesOfPair {id : UInt32} {ku kl : String}
    (hku : Identifier.parse? ku = some id) (hkl : Identifier.parse? kl = some id)
    (upper lower : String) :
    canonicalKeys (messagesOfPair ku (.object (named upper)) kl (.object (named lower))) =
      .ok [(Identifier.key id, .object (named (if ku < kl then lower else upper)))] := by
  have hidu := identify_eq_ok_iff.mpr hku
  have hidl := identify_eq_ok_iff.mpr hkl
  rw [canonicalKeys, messagesOfPair, Keyed.upsert]
  -- Under one spelling the files are merged before, else the spellings come in their order.
  by_cases heq : ku = kl
  · have hnot : ¬ ku < kl := fun hlt => Std.lt_irrefl (heq ▸ hlt)
    rw [if_pos heq, if_neg hnot, List.foldlM_cons, addCanonical, hidl]
    rfl
  · rw [if_neg heq]
    by_cases hlt : ku < kl
    · rw [if_pos hlt, if_pos hlt, List.foldlM_cons, addCanonical, hidu]
      simp only [Except.ok_bind, Keyed.upsert, List.foldlM_cons, addCanonical, hidl, if_pos,
        overlay_named]
      rfl
    · rw [if_neg hlt, if_neg hlt, List.foldlM_cons, addCanonical, hidl]
      simp only [Except.ok_bind, Keyed.upsert, List.foldlM_cons, addCanonical, hidu, if_pos,
        overlay_named]
      rfl

/-- A set with one message that has a name. -/
def setOfNamed (id : UInt32) (name : String) : MessageSet :=
  SetDraft.resolveWith
    { name := usualSetName
      bitNumberingInverted := true
      buses := []
      messages := [(MessageDraft.blank id).join
        (Call.said (Identifier.key id, .object (named name)))]
      commands := []
      requests := []
      initializers := []
      loopers := []
      extraSources := [] } []

theorem setOfNamed_messages (id : UInt32) (name : String) :
    (setOfNamed id name).messages.map (fun m => m.name) = [some name] := by
  rfl

theorem read_named (id : UInt32) (name : String) :
    Statement.read (Identifier.key id) (.object (named name)) =
      .ok (some (Call.said (Identifier.key id, .object (named name)))) := by
  have hid : identify (Identifier.key id) = .ok id :=
    identify_eq_ok_iff.mpr (Identifier.parse?_key id)
  have hread : ∃ said, Statement.read (Identifier.key id) (.object (named name)) = .ok said := by
    refine ⟨some ⟨id, Layer.ofFields (Keyed.erase (named name) "signals"), []⟩, ?_⟩
    rw [Statement.read, hid]
    rfl
  obtain ⟨said, hsaid⟩ := hread
  rw [hsaid, Statement.read_object_eq_ok (c := (Identifier.key id, .object (named name))) rfl hsaid]

namespace Catalog

variable {c : Catalog} {settings : Settings}

/-- Of two files that give one message a name, all others being silent, the upper one's name counts
unless its spelling is smaller. -/
theorem assembleLineage_of_two {id : UInt32} {ku kl : String}
    (hku : Identifier.parse? ku = some id) (hkl : Identifier.parse? kl = some id)
    {lineage : Lineage} {upper lower : String}
    (h : lineage.Speaks (speaker ku (namer upper)) (speaker kl (namer lower))) :
    (c.assembleLineage settings lineage).outcome =
      .ok (setOfNamed id (if ku < kl then lower else upper)) := by
  have hmerged : lineage.merged = .object [(messagesKey,
      .object (messagesOfPair ku (.object (named upper)) kl (.object (named lower))))] := by
    rw [h.merged_eq]
    rfl
  have hcanonical := canonicalKeys_messagesOfPair hku hkl upper lower
  rw [assembleLineage, hmerged]
  generalize messagesOfPair ku (.object (named upper)) kl (.object (named lower)) = m at hcanonical
  generalize (if ku < kl then lower else upper) = name at hcanonical
  have hfile : SetFile.read (.object [(messagesKey, .object m)]) =
      .ok ⟨none, true, [], [], m, [], [], [], [], []⟩ := by
    rfl
  have hdrafts : mergeMessages [] m = .ok [(MessageDraft.blank id).join
      (Call.said (Identifier.key id, .object (named name)))] := by
    refine Except.bind_eq_ok_iff.mpr ⟨[], rfl, ?_⟩
    refine Except.bind_eq_ok_iff.mpr ⟨_, hcanonical, ?_⟩
    have hadd : Drafts.add [] (Identifier.key id, .object (named name)) =
        .ok (Drafts.join [] (Call.said (Identifier.key id, .object (named name)))) :=
      (Drafts.add_object rfl).mpr ⟨read_named id name, rfl⟩
    rw [List.foldlM_cons, hadd]
    show Except.ok [(MessageDraft.blank (Call.said _).id).join _] = _
    rw [Call.id_said_key]
  refine Run.bind_outcome_eq_ok_iff.mpr ⟨⟨none, true, [], [], m, [], [], [], [], []⟩, ?_, ?_⟩
  · rw [Run.outcome_lift, readRecord_eq_ok_iff]
    exact hfile
  refine Run.bind_outcome_eq_ok_iff.mpr ⟨(), rfl, ?_⟩
  refine Run.bind_outcome_eq_ok_iff.mpr ⟨_, ?_, SetDraft.resolve_eq_ok_iff.mpr ⟨[], rfl, rfl⟩⟩
  refine Run.bind_outcome_eq_ok_iff.mpr ⟨(), rfl, ?_⟩
  refine Run.bind_outcome_eq_ok_iff.mpr ⟨.none, rfl, ?_⟩
  exact Run.bind_outcome_eq_ok_iff.mpr ⟨_, hdrafts, rfl⟩

end Catalog

end CanTables
