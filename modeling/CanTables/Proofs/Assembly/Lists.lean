import CanTables.Proofs.Assembly.Lineage
import CanTables.Proofs.Schema.Part

/-!
# CanTables.Proofs.Assembly.Lists — lists that the files of a lineage make up

The items that the files of a lineage give for an attribute are not chosen among but put one after
the other.  `Lineage.itemLists` is the list of each file, lowest first: parents before their child,
a later parent before an earlier one.  Only where some file gives something else than items, or is
no object, are the lists below it lost.
-/

namespace CanTables

open Document Schema

namespace Lineage

variable {A : Type} [Record A]

/-! ## The lists of the files -/

mutual

/-- The lists of items that a lineage makes up for an attribute, one for each file, lowest first. -/
def itemLists (a : A) : Lineage → List (List Value)
  | node _ own parents => itemListsOver a own [Layer.itemsAt a own] parents

/-- The lists that a value, itself made up of some lists, makes up over the lineages of parents. -/
def itemListsOver (a : A) (above : Value) (lists : List (List Value)) :
    List Lineage → List (List Value)
  | [] => lists
  | parent :: rest =>
    itemListsOver a (Value.overlay (merged parent) above)
      ((if Layer.keepsBelow a (merged parent) above then itemLists a parent else []) ++ lists) rest

end

section Over

variable {a : A} {parents : List OrderedLineage} {lists : List (List Value)} (above : OrderedValue)

/-- Over the parents of a file lies what its lists make up, and so it stays from parent to parent. -/
theorem itemListsOver_flatten
    (hparents : ∀ parent ∈ parents,
      (parent.lineage.itemLists a).flatten = Layer.itemsAt a parent.merged)
    (hlists : lists.flatten = Layer.itemsAt a above) :
    (itemListsOver a above lists (parents.map OrderedLineage.lineage)).flatten =
      Layer.itemsAt a (OrderedLineage.mergedOver above parents) := by
  induction parents generalizing lists above with
  | nil => rw [List.map_nil, itemListsOver, OrderedLineage.mergedOver_nil, hlists]
  | cons parent rest ih =>
    obtain ⟨hparent, hrest⟩ := List.forall_mem_cons.mp hparents
    rw [List.map_cons, itemListsOver, OrderedLineage.mergedOver_cons]
    apply ih (parent.merged.overlay above) hrest
    rw [Layer.itemsAt_overlay parent.merged above, List.flatten_append, hlists]
    congr 1
    split
    · exact hparent
    · rfl

/-- Under a file that gives nothing but items, parents that do the same lose none of their lists. -/
theorem itemListsOver_of_givesItems
    (hparents : ∀ parent ∈ parents,
      parent.lineage.itemLists a = parent.lineage.files.reverse.map (Layer.itemsAt a) ∧
        Layer.GivesItems a parent.merged)
    (gives : Layer.GivesItems a above) :
    itemListsOver a above lists (parents.map OrderedLineage.lineage) =
        (filesOfAll (parents.map OrderedLineage.lineage)).reverse.map (Layer.itemsAt a) ++ lists ∧
      Layer.GivesItems a (OrderedLineage.mergedOver above parents) := by
  induction parents generalizing lists above with
  | nil =>
    rw [List.map_nil, itemListsOver, OrderedLineage.mergedOver_nil]
    exact ⟨rfl, gives⟩
  | cons parent rest ih =>
    obtain ⟨⟨hlists, hmerged⟩, hrest⟩ := List.forall_mem_cons.mp hparents
    rw [List.map_cons, itemListsOver, OrderedLineage.mergedOver_cons,
      if_pos (Layer.keepsBelow_of_givesItems hmerged gives), filesOfAll, List.reverse_append,
      List.map_append, List.append_assoc, ← hlists]
    apply ih (parent.merged.overlay above) hrest
    exact Layer.GivesItems.overlay hmerged gives

end Over

/-- The items that a lineage makes up are those of the lists of its files. -/
theorem itemLists_flatten (l : OrderedLineage) (a : A) :
    (l.lineage.itemLists a).flatten = Layer.itemsAt a l.merged := by
  induction l with
  | node path own parents ih =>
    rw [itemLists, OrderedLineage.merged_node]
    exact itemListsOver_flatten own ih List.flatten_singleton

/-- Where all files are objects and give nothing but items, none of their lists is lost. -/
theorem itemLists_of_givesItems {l : OrderedLineage} {a : A}
    (h : ∀ v ∈ l.lineage.files, Layer.GivesItems a v) :
    l.lineage.itemLists a = l.lineage.files.reverse.map (Layer.itemsAt a) ∧
      Layer.GivesItems a l.merged := by
  induction l with
  | node path own parents ih =>
    rw [files_node] at h ⊢
    obtain ⟨hown, hfiles⟩ := List.forall_mem_cons.mp h
    rw [itemLists, OrderedLineage.merged_node, List.reverse_cons, List.map_append]
    refine itemListsOver_of_givesItems own (fun parent hmem => ih parent hmem fun v hv => ?_) hown
    exact hfiles v (mem_filesOfAll_iff.mpr ⟨parent, List.mem_map_of_mem hmem, hv⟩)

end Lineage

end CanTables
