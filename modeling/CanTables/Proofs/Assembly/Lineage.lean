import CanTables.Assembly.Lineage
import CanTables.Proofs.Document.Pile
import CanTables.Proofs.Order.Positions
import CanTables.Proofs.Schema.Layer

/-!
# CanTables.Proofs.Assembly.Lineage — how a lineage is made up

`Catalog.lineageBelow_eq_ok_iff` says in one equation what one step down a branch does: the file is
found and read, it is not on the branch, and its list of parents is read, whose lineages hang below
it.  Everything about lineages follows from it by induction over the tree of files.  All files of a
lineage, and the value that they make up, have their keys in order: such a tree is an
`OrderedLineage`, with its own induction.

That value is made by nested merges; `Lineage.pile_merged` says that it is a pile of the files all
the same, ancestors below and descendants on top.
-/

namespace CanTables

open Document Positions

namespace Lineage

/-- What holds of a file if it holds of all its parents holds of every lineage. -/
@[elab_as_elim, induction_eliminator]
theorem induction {P : Lineage → Prop}
    (node : ∀ path own parents, (∀ parent ∈ parents, P parent) → P (node path own parents)) :
    ∀ lineage, P lineage
  | .node path own parents => node path own parents fun parent _ => induction node parent

theorem mergedOver_eq_foldl (own : Value) (parents : List Lineage) :
    mergedOver own parents =
      parents.foldl (fun above parent => Value.overlay parent.merged above) own := by
  induction parents generalizing own with
  | nil => rw [mergedOver, List.foldl_nil]
  | cons parent rest ih => rw [mergedOver, ih, List.foldl_cons]

theorem merged_node (path : String) (own : Value) (parents : List Lineage) :
    (node path own parents).merged =
      parents.foldl (fun above parent => Value.overlay parent.merged above) own := by
  rw [merged, mergedOver_eq_foldl]

theorem files_node (path : String) (own : Value) (parents : List Lineage) :
    (node path own parents).files = own :: filesOfAll parents := by
  rw [files]

theorem mem_filesOfAll_iff {v : Value} {all : List Lineage} :
    v ∈ filesOfAll all ↔ ∃ lineage ∈ all, v ∈ lineage.files := by
  induction all with
  | nil => simp [filesOfAll]
  | cons lineage rest ih => simp [filesOfAll, ih]

/-- The keys of every file of a lineage are in order. -/
def Ordered (lineage : Lineage) : Prop := ∀ v ∈ lineage.files, v.Ordered

theorem ordered_node_iff {path : String} {own : Value} {parents : List Lineage} :
    (node path own parents).Ordered ↔ own.Ordered ∧ ∀ parent ∈ parents, parent.Ordered := by
  rw [Ordered, files_node, List.forall_mem_cons]
  refine and_congr_right fun _ => ?_
  constructor
  · intro h parent hmem v hv
    exact h v (mem_filesOfAll_iff.mpr ⟨parent, hmem, hv⟩)
  · intro h v hv
    obtain ⟨parent, hmem, hv⟩ := mem_filesOfAll_iff.mp hv
    exact h parent hmem v hv

theorem mergedOver_ordered {own : Value} (hown : own.Ordered) {parents : List Lineage}
    (h : ∀ parent ∈ parents, parent.merged.Ordered) : (mergedOver own parents).Ordered := by
  induction parents generalizing own with
  | nil =>
    rw [mergedOver]
    exact hown
  | cons parent rest ih =>
    obtain ⟨hparent, hrest⟩ := List.forall_mem_cons.mp h
    rw [mergedOver]
    exact ih (Value.ordered_overlay hparent hown) hrest

theorem Ordered.merged {lineage : Lineage} (h : lineage.Ordered) : lineage.merged.Ordered := by
  induction lineage with
  | node path own parents ih =>
    obtain ⟨hown, hparents⟩ := ordered_node_iff.mp h
    rw [Lineage.merged]
    exact mergedOver_ordered hown fun parent hmem => ih parent hmem (hparents parent hmem)

/-- Files that are objects are piled up, the root of their lineage on top. -/
theorem pile_merged {lineage : Lineage} (objects : ∀ v ∈ lineage.files, v.IsObject) :
    Value.Pile lineage.files.reverse lineage.merged := by
  induction lineage with
  | node path own parents ih =>
    rw [files_node] at objects
    obtain ⟨hown, hparents⟩ := List.forall_mem_cons.mp objects
    rw [files_node, merged_node, List.reverse_cons]
    -- What lies over the parents still to come is a pile of the files before.
    suffices hacc : ∀ (layers : List Value) above, Value.Pile layers above → above.IsObject →
        Value.Pile ((filesOfAll parents).reverse ++ layers)
          (parents.foldl (fun above parent => Value.overlay parent.merged above) above) from
      hacc [own] own (.single own) hown
    clear objects hown
    induction parents with
    | nil => exact fun layers above habove _ => habove
    | cons parent rest ihrest =>
      intro layers above habove hobject
      obtain ⟨ihparent, ihrest'⟩ := List.forall_mem_cons.mp ih
      rw [filesOfAll] at hparents
      obtain ⟨hparent, hrest⟩ := List.forall_mem_append.mp hparents
      have hpile := ihparent hparent
      have hmerged := hpile.isObject fun w hw => hparent w (List.mem_reverse.mp hw)
      rw [filesOfAll, List.reverse_append, List.append_assoc, List.foldl_cons,
        Value.overlay_eq_overlayEntry hmerged hobject]
      refine ihrest ihrest' hrest _ _ (hpile.merge habove) ?_
      obtain ⟨lower, hlower⟩ := hmerged
      obtain ⟨upper, hupper⟩ := hobject
      rw [hlower, hupper]
      exact ⟨_, Value.overlayEntry_object lower upper⟩

end Lineage

/-! ## Lineages that carry their order -/

/-- A lineage all of whose files have their keys in order. -/
structure OrderedLineage where
  lineage : Lineage
  ordered : lineage.Ordered

instance : Coe OrderedLineage Lineage := ⟨OrderedLineage.lineage⟩

instance : CanLift Lineage OrderedLineage OrderedLineage.lineage Lineage.Ordered :=
  ⟨fun lineage h => ⟨⟨lineage, h⟩, rfl⟩⟩

namespace OrderedLineage

/-- A file over the lineages of its parents. -/
abbrev node (path : String) (own : OrderedValue) (parents : List OrderedLineage) :
    OrderedLineage where
  lineage := .node path own (parents.map lineage)
  ordered := Lineage.ordered_node_iff.mpr
    ⟨own.ordered, List.forall_mem_map.mpr fun parent _ => parent.ordered⟩

/-- The value that the files make up together. -/
abbrev merged (l : OrderedLineage) : OrderedValue := ⟨l.lineage.merged, l.ordered.merged⟩

/-- The value that a file makes up with lineages underneath. -/
abbrev mergedOver (own : OrderedValue) (parents : List OrderedLineage) : OrderedValue where
  value := Lineage.mergedOver own (parents.map lineage)
  ordered := Lineage.mergedOver_ordered own.ordered
    (List.forall_mem_map.mpr fun parent _ => parent.merged.ordered)

theorem mergedOver_nil (own : OrderedValue) : mergedOver own [] = own := by
  apply OrderedValue.ext
  show Lineage.mergedOver own [] = own
  rw [Lineage.mergedOver]

theorem mergedOver_cons (own : OrderedValue) (parent : OrderedLineage)
    (rest : List OrderedLineage) :
    mergedOver own (parent :: rest) = mergedOver (parent.merged.overlay own) rest := by
  apply OrderedValue.ext
  show Lineage.mergedOver own (parent.lineage :: rest.map lineage) = _
  rw [Lineage.mergedOver]

theorem merged_node (path : String) (own : OrderedValue) (parents : List OrderedLineage) :
    (node path own parents).merged = mergedOver own parents := by
  apply OrderedValue.ext
  show Lineage.merged (.node path own (parents.map lineage)) = _
  rw [Lineage.merged]

theorem exists_node (l : OrderedLineage) : ∃ path own parents, l = node path own parents := by
  obtain ⟨⟨path, own, parents⟩, ordered⟩ := l
  obtain ⟨hown, hparents⟩ := Lineage.ordered_node_iff.mp ordered
  lift own to OrderedValue using hown
  lift parents to List OrderedLineage using hparents
  exact ⟨path, own, parents, rfl⟩

/-- What holds of a file if it holds of all its parents holds of every lineage in order. -/
@[elab_as_elim, induction_eliminator]
theorem induction {P : OrderedLineage → Prop}
    (node : ∀ path own parents, (∀ parent ∈ parents, P parent) → P (node path own parents))
    (l : OrderedLineage) : P l := by
  obtain ⟨lineage, ordered⟩ := l
  induction lineage with
  | node path own parents ih =>
    obtain ⟨hown, hparents⟩ := Lineage.ordered_node_iff.mp ordered
    lift own to OrderedValue using hown
    lift parents to List OrderedLineage using hparents
    exact node path own parents fun parent hmem =>
      ih parent (List.mem_map_of_mem hmem) parent.ordered

end OrderedLineage

theorem readRecord_eq_ok_iff {α : Type} {reader : Schema.Reader α} {subject : String} {v : Value}
    {a : α} : readRecord reader subject v = .ok a ↔ reader v = .ok a := by
  unfold readRecord
  cases reader v <;> simp

namespace Catalog

/-- The value that a file holds has its keys in order. -/
theorem readValue_ordered {c : Catalog} {name : String} {found : Store.FoundFile c.store}
    {v : Value} (h : c.readValue name = .ok (found, v)) : v.Ordered := by
  obtain ⟨found', -, h⟩ := Except.bind_eq_ok_iff.mp h
  obtain ⟨v', hv, h⟩ := Except.bind_eq_ok_iff.mp h
  cases h
  obtain ⟨text, -, hv⟩ := Except.bind_eq_ok_iff.mp hv
  split at hv
  · next hvalue =>
    cases hv
    exact Value.ordered_of_ofText? hvalue
  · cases hv

/-- One step down a branch: the file is found and is not on the branch yet, its parents are listed
well, and each of them has a lineage. -/
theorem lineageBelow_eq_ok_iff {c : Catalog} {branch : List Location} {name : String}
    {lineage : Lineage} :
    (c.lineageBelow branch name).outcome = .ok lineage ↔
      ∃ found value names parents, c.readValue name = .ok (found, value) ∧
        found.place ∉ branch ∧ parentNames found.path value = .ok names ∧
        List.Forall₂ (fun parent below =>
          (c.lineageBelow (found.place :: branch) parent).outcome = .ok below) names parents ∧
        lineage = .node found.path (value.eraseField parentsKey) parents := by
  rw [lineageBelow, Run.bind_outcome_eq_ok_iff]
  constructor
  · rintro ⟨⟨found, value⟩, hread, h⟩
    dsimp only at h
    split at h
    · cases h
    · next hnew =>
      obtain ⟨names, hnames, h⟩ := Run.bind_outcome_eq_ok_iff.mp h
      obtain ⟨parents, hparents, h⟩ := Run.bind_outcome_eq_ok_iff.mp h
      cases h
      rw [Run.outcome_mapM, Except.mapM_eq_ok_iff] at hparents
      refine ⟨found, value, names, parents, hread, hnew, hnames, ?_, rfl⟩
      exact hparents.imp fun parent below hbelow => by simpa using hbelow
  · rintro ⟨found, value, names, parents, hread, hnew, hnames, hparents, rfl⟩
    refine ⟨(found, value), hread, ?_⟩
    simp only [dif_neg hnew]
    refine Run.bind_outcome_eq_ok_iff.mpr ⟨names, hnames, ?_⟩
    refine Run.bind_outcome_eq_ok_iff.mpr ⟨parents, ?_, rfl⟩
    rw [Run.outcome_mapM, Except.mapM_eq_ok_iff]
    exact hparents.imp fun parent below hbelow => by simpa using hbelow

/-- All files of a lineage have their keys in order. -/
theorem lineageBelow_ordered {c : Catalog} {lineage : Lineage} {branch : List Location}
    {name : String} (h : (c.lineageBelow branch name).outcome = .ok lineage) : lineage.Ordered := by
  induction lineage generalizing branch name with
  | node path own parents ih =>
    obtain ⟨found, value, names, parents', hread, -, -, hparents, heq⟩ :=
      lineageBelow_eq_ok_iff.mp h
    cases heq
    apply Lineage.ordered_node_iff.mpr
    refine ⟨Value.ordered_eraseField (readValue_ordered hread) _, fun parent hmem => ?_⟩
    obtain ⟨name', -, hname'⟩ := exists_left_of_forall₂ hparents hmem
    exact ih parent hmem hname'

end Catalog

end CanTables
