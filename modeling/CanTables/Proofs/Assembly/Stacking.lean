import CanTables.Proofs.Assembly.Precedence
import CanTables.Proofs.Assembly.Speaking
import CanTables.Proofs.Store.Files

/-!
# CanTables.Proofs.Assembly.Stacking — what the spellings decide

Over all that the files of a lineage may say, the spellings alone decide whether a respelling can be
noticed: it cannot if and only if it keeps, for every two files, whether the upper one comes to lie
under the lower one (`Catalog.Respelled.unnoticed_iff`).  For the one direction two files are enough
that give a message two names while all others are silent.
-/

namespace CanTables

open Declaration Document Schema Value Lineage Positions

/-! ## Saying things under fewer spellings -/

/-- A file that says things under spellings of another one only. -/
def SpelledBy (v w : Value) : Prop := ∀ key ∈ Keyed.keys w.messages, key ∈ Keyed.keys v.messages

theorem spelledBy_silent (v : Value) : SpelledBy v silent := fun _ hkey => nomatch hkey

theorem spelledBy_saying {v x : Value} {id : UInt32} {key : String}
    (h : (key, x) ∈ spelled id v.messages) (fields : Fields) : SpelledBy v (saying key fields) := by
  intro other hother
  obtain rfl : other = key := List.mem_singleton.mp hother
  exact Keyed.mem_keys_of_mem (mem_spelled_iff.mp h).1

/-- The old and the new spelling alone. -/
def Respelling.keys (r : Respelling) : String × String := (r.old, r.new)

theorem sameStacking_iff {rs : List Respelling} :
    SameStacking rs ↔ (rs.map Respelling.keys).Pairwise fun upper lower =>
      upper.1 < lower.1 ↔ upper.2 < lower.2 := by
  rw [SameStacking, List.pairwise_map]
  rfl

theorem Differ.spelled_cases {v v' : Value} (h : Differ Respelled v v') (id : UInt32) :
    spelled id v.messages = [] ∧ spelled id v'.messages = [] ∨ ∃ k k' w,
      spelled id v.messages = [(k, w)] ∧ spelled id v'.messages = [(k', w)] := by
  have hmessages := h.messages
  rw [Value.messages, Value.messages]
  generalize v.field? messagesKey = o at hmessages ⊢
  generalize v'.field? messagesKey = o' at hmessages ⊢
  cases hmessages with
  | objects related => exact related.spelled_cases id
  | same hnot =>
    refine .inl ?_
    cases o with
    | none => exact ⟨rfl, rfl⟩
    | some w =>
      cases w with
      | object m => exact absurd rfl (hnot m)
      | _ => exact ⟨rfl, rfl⟩

/-- The one spelling of an identifier is the only one under which something can be said. -/
theorem SpelledBy.spelled_eq {v w x y : Value} (h : SpelledBy v w) {id : UInt32} {k j : String}
    (hv : spelled id v.messages = [(k, x)]) (hw : spelled id w.messages = [(j, y)]) : j = k := by
  obtain ⟨hmem, hid⟩ := mem_spelled_iff.mp (hw ▸ List.mem_singleton_self (j, y))
  obtain ⟨entry, hentry, rfl⟩ := List.mem_map.mp (h j (Keyed.mem_keys_of_mem hmem))
  have hspelled := mem_spelled_iff.mpr ⟨hentry, hid⟩
  rw [hv, List.mem_singleton] at hspelled
  rw [hspelled]

theorem SpelledBy.spelled_nil {v w : Value} (h : SpelledBy v w) {id : UInt32}
    (hv : spelled id v.messages = []) : spelled id w.messages = [] := by
  rw [List.eq_nil_iff_forall_not_mem]
  intro entry hentry
  obtain ⟨hmem, hid⟩ := mem_spelled_iff.mp hentry
  obtain ⟨other, hother, heq⟩ := List.mem_map.mp (h entry.1 (Keyed.mem_keys_of_mem hmem))
  have hspelled := mem_spelled_iff.mpr ⟨hother, heq ▸ hid⟩
  rw [hv] at hspelled
  cases hspelled

theorem respellings_sublist {v v' w w' : Value} (h : Differ Respelled v v')
    (h' : Differ Respelled w w') (hw : SpelledBy v w) (hw' : SpelledBy v' w') (id : UInt32) :
    List.Sublist ((respellings id w w').map Respelling.keys)
      ((respellings id v v').map Respelling.keys) := by
  rw [respellings, respellings]
  rcases h'.spelled_cases id with ⟨hs, -⟩ | ⟨j, j', y, hj, hj'⟩
  · rw [hs]
    exact List.nil_sublist _
  · rcases h.spelled_cases id with ⟨hs, -⟩ | ⟨k, k', x, hk, hk'⟩
    · rw [hw.spelled_nil hs] at hj
      cases hj
    · obtain rfl := hw.spelled_eq hk hj
      obtain rfl := hw'.spelled_eq hk' hj'
      rw [hj, hj', hk, hk']
      exact List.Sublist.refl _

/-- Lineages that say things under fewer spellings keep the stacking if the others do. -/
theorem sameStacking_of_spelledBy {lineage lineage' other other' : Lineage}
    (h : Alike (Differ Respelled) lineage lineage') (h' : Alike (Differ Respelled) other other')
    (hother : Alike SpelledBy lineage other) (hother' : Alike SpelledBy lineage' other')
    {id : UInt32} (stacking : SameStacking (Lineage.respellings id lineage lineage')) :
    SameStacking (Lineage.respellings id other other') := by
  rw [sameStacking_iff] at stacking ⊢
  refine stacking.sublist ?_
  have hfiles := h.forall₂_files
  have hfiles' := h'.forall₂_files
  have hspelled := hother.forall₂_files
  have hspelled' := hother'.forall₂_files
  rw [Lineage.respellings, Lineage.respellings, along, along]
  generalize lineage.files = vs, lineage'.files = vs' at hfiles hspelled hspelled' ⊢
  generalize other.files = ws, other'.files = ws' at hfiles' hspelled hspelled' ⊢
  induction hfiles generalizing ws ws' with
  | nil =>
    obtain rfl := List.forall₂_nil_left_iff.mp hspelled
    exact List.nil_sublist _
  | @cons v v' vs vs' hv _ ih =>
    obtain ⟨w, ws, hw, hws, rfl⟩ := List.forall₂_cons_left_iff.mp hspelled
    obtain ⟨w', ws', hw', hws', rfl⟩ := List.forall₂_cons_left_iff.mp hspelled'
    obtain ⟨hww', hwws'⟩ := List.forall₂_cons.mp hfiles'
    rw [List.zip_cons_cons, List.zip_cons_cons, List.flatMap_cons, List.flatMap_cons,
      List.map_append, List.map_append]
    exact (respellings_sublist hv hww' hw hw' id).append (ih ws ws' hwws' hws hws')

/-! ## Other files in the place of two -/

/-- In the place of two files of a lineage others can speak, under their spellings. -/
theorem exists_speaks {lineage lineage' : Lineage}
    (alike : Alike (Differ Respelled) lineage lineage') {id : UInt32} {v v' w w' : Value}
    (hsub : List.Sublist [(v, v'), (w, w')] (lineage.files.zip lineage'.files))
    {upper lower : Respelling} (hupper : upper ∈ respellings id v v')
    (hlower : lower ∈ respellings id w w') (m m' : OrderedObject) :
    ∃ other other', Alike SpelledBy lineage other ∧ Alike SpelledBy lineage' other' ∧
      Alike (Differ Respelled) other other' ∧
      other.Speaks (speaker upper.old m) (speaker lower.old m') ∧
      other'.Speaks (speaker upper.new m) (speaker lower.new m') ∧
      ∀ id, Lineage.respellings id other other' =
        respellings id (saying upper.old m) (saying upper.new m) ++
          respellings id (saying lower.old m') (saying lower.new m') := by
  obtain ⟨head, tail, hzip, hv, hw⟩ := List.cons_sublist_iff.mp hsub
  obtain ⟨before, mid, rfl⟩ := List.append_of_mem hv
  obtain ⟨mid', after, rfl⟩ := List.append_of_mem (List.singleton_sublist.mp hw)
  have hsplit : lineage.files.zip lineage'.files =
      before ++ (v, v') :: ((mid ++ mid') ++ (w, w') :: after) := by
    rw [hzip]
    simp only [List.append_assoc, List.cons_append]
  obtain ⟨hid, hid'⟩ := parse?_of_mem_respellings hupper
  obtain ⟨⟨x, hx⟩, x', hx'⟩ := mem_spelled_of_mem_respellings hupper
  obtain ⟨hjd, hjd'⟩ := parse?_of_mem_respellings hlower
  obtain ⟨⟨y, hy⟩, y', hy'⟩ := mem_spelled_of_mem_respellings hlower
  have hpairs : List.Forall₂ (fun old new => SpelledBy old.1 new.1 ∧ SpelledBy old.2 new.2 ∧
      Differ Respelled new.1 new.2) (lineage.files.zip lineage'.files)
      (between (silent, silent) before (mid ++ mid') after
        (saying upper.old m, saying upper.new m) (saying lower.old m', saying lower.new m')) := by
    rw [hsplit]
    refine forall₂_between ?_ ?_ ?_
    · exact fun pair => ⟨spelledBy_silent pair.1, spelledBy_silent pair.2, respelled_silent⟩
    · exact ⟨spelledBy_saying hx m, spelledBy_saying hx' m, respelled_saying hid hid' m⟩
    · exact ⟨spelledBy_saying hy m', spelledBy_saying hy' m', respelled_saying hjd hjd' m'⟩
  obtain ⟨other, other', hother, hother', hboth, hfiles⟩ := alike.exists_of_files hpairs
  have hlength := hboth.files_length
  refine ⟨other, other', hother, hother', hboth, ⟨between none before (mid ++ mid') after
    (some (speaker upper.old m)) (some (speaker lower.old m')), ?_, ?_⟩,
    ⟨between none before (mid ++ mid') after (some (speaker upper.new m))
      (some (speaker lower.new m')), ?_, ?_⟩, fun other => ?_⟩
  · rw [← List.map_fst_zip (Nat.le_of_eq hlength), hfiles, map_between, map_between]
    rfl
  · exact reduceOption_between before (mid ++ mid') after _ _
  · rw [← List.map_snd_zip (Nat.le_of_eq hlength.symm), hfiles, map_between, map_between]
    rfl
  · exact reduceOption_between before (mid ++ mid') after _ _
  · rw [Lineage.respellings, along, hfiles]
    exact flatMap_between rfl before (mid ++ mid') after _ _

/-! ## Whether a respelling can be noticed -/

namespace Catalog

variable {c c' : Catalog} {settings : Settings}

/-- The spellings of two lineages cannot be told apart by the assembled sets, whatever the files say
under them, as long as that does not depend on the way in which layers are piled up. -/
def Unnoticed (c c' : Catalog) (settings : Settings) (lineage lineage' : Lineage) : Prop :=
  ∀ other other', Alike SpelledBy lineage other → Alike SpelledBy lineage' other' →
    Alike (Differ CanTables.Respelled) other other' → other.Ordered → other'.Ordered →
    (∀ id, Settled ((Lineage.respellings id other other').map Respelling.said)) → ∀ s,
      (c.assembleLineage settings other).outcome = .ok s ↔
        (c'.assembleLineage settings other').outcome = .ok s

/-- Two files that come to lie over each other in another way are noticed by the names that they
give a message. -/
theorem Unnoticed.lt_iff {lineage lineage' : Lineage} (h : c.Unnoticed c' settings lineage lineage')
    (alike : Alike (Differ CanTables.Respelled) lineage lineage') {id : UInt32}
    {v v' w w' : Value}
    (hsub : List.Sublist [(v, v'), (w, w')] (lineage.files.zip lineage'.files))
    {upper lower : Respelling} (hupper : upper ∈ CanTables.respellings id v v')
    (hlower : lower ∈ CanTables.respellings id w w') :
    upper.old < lower.old ↔ upper.new < lower.new := by
  obtain ⟨other, other', hother, hother', hboth, hspeaks, hspeaks', hrespellings⟩ :=
    exists_speaks alike hsub hupper hlower (namer "upper") (namer "lower")
  obtain ⟨hid, hid'⟩ := parse?_of_mem_respellings hupper
  obtain ⟨hjd, hjd'⟩ := parse?_of_mem_respellings hlower
  -- The name of the message tells which of the two files came to lie on top.
  have hold : (c.assembleLineage settings other).outcome =
      .ok (setOfNamed id (if upper.old < lower.old then "lower" else "upper")) :=
    assembleLineage_of_two hid hjd hspeaks
  have hnew : (c'.assembleLineage settings other').outcome =
      .ok (setOfNamed id (if upper.new < lower.new then "lower" else "upper")) :=
    assembleLineage_of_two hid' hjd' hspeaks'
  -- Two objects are always settled.
  have hsettled : ∀ key, Settled ((Lineage.respellings key other other').map Respelling.said) := by
    intro key
    rw [hrespellings, respellings_saying hid hid', respellings_saying hjd hjd']
    split
    · exact settled_of_length_le_two (Nat.le_refl 2) (named_isObject _ _)
    · exact settled_of_length_le_two (Nat.zero_le 2) fun v hv => absurd hv List.not_mem_nil
  have hsame := (h other other' hother hother' hboth ?_ ?_ hsettled _).mp hold
  · rw [hnew, Except.ok.injEq] at hsame
    have hname := congrArg (fun s => s.messages.map fun m => m.name) hsame
    simp only [setOfNamed_messages, List.cons.injEq, and_true, Option.some.injEq] at hname
    have hne : "lower" ≠ "upper" := by decide
    constructor
    · intro hlt
      by_contra hnot
      rw [if_pos hlt, if_neg hnot] at hname
      exact hne hname.symm
    · intro hlt
      by_contra hnot
      rw [if_neg hnot, if_pos hlt] at hname
      exact hne hname
  · exact hspeaks.ordered
  · exact hspeaks'.ordered

/-- For the sets assembled from two versions of a lineage to be the same whatever its files say, it
is enough and necessary that the files come to lie over each other as before. -/
theorem Respelled.unnoticed_iff (h : c.Respelled c') {lineage lineage' : Lineage}
    (alike : Alike (Differ CanTables.Respelled) lineage lineage') :
    c.Unnoticed c' settings lineage lineage' ↔
      ∀ id, SameStacking (Lineage.respellings id lineage lineage') := by
  constructor
  · intro hunnoticed id
    rw [Lineage.respellings, along, SameStacking, List.pairwise_flatMap]
    constructor
    -- One file spells an identifier once, so only two files can differ.
    · rintro ⟨v, v'⟩ hmem
      rcases (List.forall₂_zip alike.forall₂_files hmem).spelled_cases id with
        ⟨hs, -⟩ | ⟨k, k', x, hs, hs'⟩
      · rw [CanTables.respellings, hs]
        exact List.Pairwise.nil
      · rw [CanTables.respellings, hs, hs']
        exact List.pairwise_singleton _ _
    · rw [List.pairwise_iff_forall_sublist]
      rintro ⟨v, v'⟩ ⟨w, w'⟩ hsub upper hupper lower hlower
      exact hunnoticed.lt_iff alike hsub hupper hlower
  · intro stacking other other' hother hother' hboth ordered ordered' settled s
    lift other to OrderedLineage using ordered
    lift other' to OrderedLineage using ordered'
    refine h.assembleLineage_iff hboth fun id => .inr ⟨?_, settled id⟩
    exact sameStacking_of_spelledBy alike hboth hother hother' (stacking id)

/-- What spellings do to an assembled set: a respelling leaves it as it is if the layers of every
identifier come to lie over each other as before; nothing less is enough for all that the files may
say; and a child's word counts over all its ancestors if none of them spells the identifier by a
greater text. -/
theorem spelling_of_assemble (c : Catalog) (settings : Settings) :
    (∀ (c' : Catalog) (name : String) (lineage : Lineage), c.Respelled c' →
      (c.lineage name).outcome = .ok lineage → (∀ v ∈ lineage.files, SpelledOnce v.messages) →
      ∃ lineage', (c'.lineage name).outcome = .ok lineage' ∧
        ((∀ id, KeepsLayers (Lineage.respellings id lineage lineage')) → ∀ s,
          (c.assemble settings name).outcome = .ok s ↔
            (c'.assemble settings name).outcome = .ok s)) ∧
    (∀ (c' : Catalog) (lineage lineage' : Lineage), c.Respelled c' →
      Alike (Differ CanTables.Respelled) lineage lineage' →
      (c.Unnoticed c' settings lineage lineage' ↔
        ∀ id, SameStacking (Lineage.respellings id lineage lineage'))) ∧
    ∀ (name path : String) (own : Value) (parents : List Lineage) (s : MessageSet),
      (c.lineage name).outcome = .ok (.node path own parents) →
      (c.assemble settings name).outcome = .ok s →
      ∀ (id : UInt32) (key : String) (fields : Fields), Identifier.parse? key = some id →
        Keyed.get? own.messages key = some (.object fields) →
        (∀ v ∈ (Lineage.node path own parents).files, ∀ k ∈ Keyed.keys v.messages,
          Identifier.parse? k = some id → ¬ key < k) →
        ∃ (draft : MessageDraft) (bus : Option Bus.Ref) (refs : List Signal.Ref), draft.id = id ∧
          draft.resolve bus refs ∈ s.messages ∧
          ∀ a, a ≠ .signals → ∀ v x, fields.get? (Record.key a) = some v → v.IsPlain →
            v ≠ .null → Record.read a v = .ok x → draft.attributes a = some x := by
  refine ⟨?_, ?_, ?_⟩
  · intro c' name lineage h hlineage once
    exact h.assemble_iff hlineage once
  · intro c' lineage lineage' h alike
    exact h.unnoticed_iff alike
  · intro name path own parents s hlineage hs id key fields hid hfields greatest
    exact child_stands hlineage hs hid hfields greatest

/-! ## A child over its parent -/

/-- A file that names a message, as a parent has it. -/
def parentText (key : String) : String :=
  objectText [("messages", objectText [(key, objectText [("name", "\"parent\"")])])]

/-- A file that names a message, over a parent. -/
def childText (key : String) : String :=
  objectText [
    ("parents", "[\"parent.json\"]"),
    ("messages", objectText [(key, objectText [("name", "\"child\"")])])]

/-- A child over its parent, both naming a message under a spelling each. -/
def ofPair (child parent : String) : Catalog := ofFiles [
  ("child.json", childText child),
  ("parent.json", parentText parent)]

/-- The value of the child. -/
def childValue (key : String) : Value := .object [
  (messagesKey, .object [(key, .object (named "child"))]),
  (parentsKey, .array [.text "parent.json"])]

/-- A spelling with which both files are read. -/
structure Legible (key : String) : Prop where
  child : Value.ofText? maxDepth (childText key) = some (childValue key)
  parent : Value.ofText? maxDepth (parentText key) = some (saying key (named "parent"))

theorem legible_decimal : Legible "256" := ⟨rfl, rfl⟩

theorem legible_hexadecimal : Legible "0x100" := ⟨rfl, rfl⟩

/-- The lineage of the child. -/
def lineageOfPair (child parent : String) : Lineage :=
  .node "./child.json" (saying child (named "child"))
    [.node "./parent.json" (saying parent (named "parent")) []]

theorem lineage_ofPair {child parent : String} (hchild : Legible child) (hparent : Legible parent) :
    ((ofPair child parent).lineage "child.json").outcome = .ok (lineageOfPair child parent) := by
  have hreadChild : (ofPair child parent).readValue "child.json" =
      .ok (⟨"./child.json", ["child.json"], .text (childText child), rfl⟩, childValue child) :=
    Except.bind_eq_ok_iff.mpr ⟨_, rfl,
      Except.bind_eq_ok_iff.mpr ⟨_, valueOf_of_text rfl hchild.child, rfl⟩⟩
  have hreadParent : (ofPair child parent).readValue "parent.json" =
      .ok (⟨"./parent.json", ["parent.json"], .text (parentText parent), rfl⟩,
        saying parent (named "parent")) :=
    Except.bind_eq_ok_iff.mpr ⟨_, rfl,
      Except.bind_eq_ok_iff.mpr ⟨_, valueOf_of_text rfl hparent.parent, rfl⟩⟩
  have hnew : ["parent.json"] ∉ [["child.json"]] := by decide
  have hbelow : ((ofPair child parent).lineageBelow [["child.json"]] "parent.json").outcome =
      .ok (.node "./parent.json" (saying parent (named "parent")) []) :=
    lineageBelow_eq_ok_iff.mpr ⟨_, _, [], [], hreadParent, hnew, rfl, .nil, rfl⟩
  exact lineageBelow_eq_ok_iff.mpr ⟨_, _, ["parent.json"], _, hreadChild, List.not_mem_nil, rfl,
    .cons hbelow .nil, rfl⟩

section

variable {id : UInt32} {child parent child' parent' : String}

theorem ofPair_respelled (hchild : Legible child) (hparent : Legible parent)
    (hchild' : Legible child') (hparent' : Legible parent')
    (hc : Identifier.parse? child = some id) (hp : Identifier.parse? parent = some id)
    (hc' : Identifier.parse? child' = some id) (hp' : Identifier.parse? parent' = some id) :
    (ofPair child parent).Respelled (ofPair child' parent') where
  store := {
    items := .cons ⟨rfl, .file (.text hchild.child hchild'.child
        ⟨rfl, .objects (respelled_singleton hc hc' _)⟩)⟩
      (.cons ⟨rfl, .file (.text hparent.parent hparent'.parent (respelled_saying hp hp' _))⟩ .nil)
    workingDirectory := rfl }
  directories := rfl

theorem alike_lineageOfPair (hc : Identifier.parse? child = some id)
    (hp : Identifier.parse? parent = some id) (hc' : Identifier.parse? child' = some id)
    (hp' : Identifier.parse? parent' = some id) :
    Alike (Differ CanTables.Respelled) (lineageOfPair child parent)
      (lineageOfPair child' parent') :=
  .node _ (respelled_saying hc hc' _) (.cons (.node _ (respelled_saying hp hp' _) .nil) .nil)

theorem files_lineageOfPair (child parent : String) : (lineageOfPair child parent).files =
    [saying child (named "child"), saying parent (named "parent")] := by
  simp only [lineageOfPair, files_node, filesOfAll, List.append_nil]

theorem respellings_lineageOfPair (hc : Identifier.parse? child = some id)
    (hp : Identifier.parse? parent = some id) (hc' : Identifier.parse? child' = some id)
    (hp' : Identifier.parse? parent' = some id) (other : UInt32) :
    Lineage.respellings other (lineageOfPair child parent) (lineageOfPair child' parent') =
      if id = other then
        [⟨child, child', .object (named "child")⟩, ⟨parent, parent', .object (named "parent")⟩]
      else [] := by
  rw [Lineage.respellings, along, files_lineageOfPair, files_lineageOfPair, List.zip_cons_cons,
    List.zip_cons_cons, List.zip_nil_left, List.flatMap_cons, List.flatMap_cons, List.flatMap_nil,
    respellings_saying hc hc', respellings_saying hp hp']
  split <;> rfl

/-- The two layers come to lie over each other as before if the order of the spellings is kept. -/
theorem sameStacking_lineageOfPair (hc : Identifier.parse? child = some id)
    (hp : Identifier.parse? parent = some id) (hc' : Identifier.parse? child' = some id)
    (hp' : Identifier.parse? parent' = some id) (order : child < parent ↔ child' < parent')
    (other : UInt32) : SameStacking
      (Lineage.respellings other (lineageOfPair child parent) (lineageOfPair child' parent')) := by
  rw [respellings_lineageOfPair hc hp hc' hp']
  split
  · refine List.pairwise_cons.mpr ⟨fun lower hlower => ?_, List.pairwise_singleton _ _⟩
    rw [List.mem_singleton.mp hlower]
    exact order
  · exact List.Pairwise.nil

theorem keepsLayers_lineageOfPair (hc : Identifier.parse? child = some id)
    (hp : Identifier.parse? parent = some id) (hc' : Identifier.parse? child' = some id)
    (hp' : Identifier.parse? parent' = some id) (order : child < parent ↔ child' < parent')
    (other : UInt32) : KeepsLayers
      (Lineage.respellings other (lineageOfPair child parent) (lineageOfPair child' parent')) := by
  refine .inr ⟨sameStacking_lineageOfPair hc hp hc' hp' order other, ?_⟩
  rw [respellings_lineageOfPair hc hp hc' hp']
  split
  · exact settled_of_length_le_two (Nat.le_refl 2) (named_isObject _ _)
  · exact settled_of_length_le_two (Nat.zero_le 2) fun v hv => absurd hv List.not_mem_nil

end

/-- A child that spells an identifier as "256" over a parent that spells it as "0x100" may spell it
as "0x100" too, and its word counts. -/
theorem spelling_of_assemble_ofPair :
    (∀ s, ((ofPair "256" "0x100").assemble .usual "child.json").outcome = .ok s ↔
      ((ofPair "0x100" "0x100").assemble .usual "child.json").outcome = .ok s) ∧
    (ofPair "256" "0x100").Unnoticed (ofPair "0x100" "0x100") .usual
      (lineageOfPair "256" "0x100") (lineageOfPair "0x100" "0x100") ∧
    ∃ s, ((ofPair "256" "0x100").assemble .usual "child.json").outcome = .ok s ∧
      ∃ (draft : MessageDraft) (bus : Option Bus.Ref) (refs : List Signal.Ref), draft.id = 256 ∧
        draft.resolve bus refs ∈ s.messages ∧ draft.attributes .name = some "child" := by
  have hdec : Identifier.parse? "256" = some 256 := by decide +kernel
  have hhex : Identifier.parse? "0x100" = some 256 := by decide +kernel
  have hrespelled := ofPair_respelled legible_decimal legible_hexadecimal legible_hexadecimal
    legible_hexadecimal hdec hhex hhex hhex
  have hlineage := lineage_ofPair legible_decimal legible_hexadecimal
  have hlineage' := lineage_ofPair legible_hexadecimal legible_hexadecimal
  have horder : "256" < "0x100" ↔ "0x100" < "0x100" := by decide
  have honce : ∀ v ∈ (lineageOfPair "256" "0x100").files, SpelledOnce v.messages := by
    intro v hv
    rw [files_lineageOfPair] at hv
    rcases List.mem_pair.mp hv with rfl | rfl
    · exact (respelled_singleton hdec hdec _).once
    · exact (respelled_singleton hhex hhex _).once
  obtain ⟨hkept, hexact, hchild⟩ := spelling_of_assemble (ofPair "256" "0x100") .usual
  obtain ⟨lineage', houtcome, hsame⟩ := hkept _ _ _ hrespelled hlineage honce
  obtain rfl := Except.ok.inj (hlineage'.symm.trans houtcome)
  have hassembled := hsame (keepsLayers_lineageOfPair hdec hhex hhex hhex horder)
  refine ⟨hassembled, ?_, ?_⟩
  · exact (hexact _ _ _ hrespelled (alike_lineageOfPair hdec hhex hhex hhex)).mpr
      (sameStacking_lineageOfPair hdec hhex hhex hhex horder)
  · have hany : ((ofPair "256" "0x100").assemble .usual "child.json").outcome.toOption.any
        (fun _ => true) = true := by
      decide +kernel
    obtain ⟨s, hs, -⟩ := Except.exists_of_any_toOption hany
    refine ⟨s, hs, ?_⟩
    obtain ⟨draft, bus, refs, hid, hmem, hattributes⟩ := hchild _ _ _ _ s hlineage hs 256 "256"
      (named "child") hdec rfl (by decide +kernel)
    exact ⟨draft, bus, refs, hid, hmem, hattributes .name (by decide) _ _ rfl trivial
      (fun heq => nomatch heq) rfl⟩

/-- A child that spells an identifier as "0x100" over a parent that spells it as "256" is not
heard, though it would be if the parent spelled it as "0x100" too. -/
theorem not_forall_respelled_assemble : ¬ ∀ (c c' : Catalog) (settings : Settings) (name : String)
    (lineage : Lineage), c.Respelled c' → (c.lineage name).outcome = .ok lineage →
    (∀ v ∈ lineage.files, SpelledOnce v.messages) → ∀ s,
      (c.assemble settings name).outcome = .ok s → (c'.assemble settings name).outcome = .ok s := by
  intro h
  have hdec : Identifier.parse? "256" = some 256 := by decide +kernel
  have hhex : Identifier.parse? "0x100" = some 256 := by decide +kernel
  have hrespelled := ofPair_respelled legible_hexadecimal legible_decimal legible_hexadecimal
    legible_hexadecimal hhex hdec hhex hhex
  have hlineage := lineage_ofPair legible_hexadecimal legible_decimal
  have honce : ∀ v ∈ (lineageOfPair "0x100" "256").files, SpelledOnce v.messages := by
    intro v hv
    rw [files_lineageOfPair] at hv
    rcases List.mem_pair.mp hv with rfl | rfl
    · exact (respelled_singleton hhex hhex _).once
    · exact (respelled_singleton hdec hdec _).once
  have hparent : ((ofPair "0x100" "256").assemble .usual "child.json").outcome.toOption.any
      (fun s => s.messages.map (fun m => m.name) = [some "parent"]) = true := by
    decide +kernel
  have hchild : ((ofPair "0x100" "0x100").assemble .usual "child.json").outcome.toOption.any
      (fun s => s.messages.map (fun m => m.name) = [some "child"]) = true := by
    decide +kernel
  obtain ⟨s, hs, hnames⟩ := Except.exists_of_any_toOption hparent
  obtain ⟨s', hs', hnames'⟩ := Except.exists_of_any_toOption hchild
  have hsame := h _ _ .usual "child.json" _ hrespelled hlineage honce s hs
  obtain rfl := Except.ok.inj (hs'.symm.trans hsame)
  have hname := (of_decide_eq_true hnames).symm.trans (of_decide_eq_true hnames')
  exact absurd hname (by decide)

end Catalog

end CanTables
