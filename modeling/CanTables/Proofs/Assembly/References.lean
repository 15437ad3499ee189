import CanTables.Proofs.Assembly.Lineage
import Mathlib.Logic.Relation

/-!
# CanTables.Proofs.Assembly.References — files as the nodes of a graph

A name stands for the file at a place, the file holds a value, and the value lists the names of its
parents.  This makes a graph of places (`Catalog.IsParent`), in which a name has others within reach
(`Catalog.Reaches`) and a file has ancestors (`Catalog.IsAncestor`).  Two names may stand for one
place, so files are told apart by their places and never by their names.

The graph is described by what is in the store; `Catalog.readValue_eq_ok_iff` and
`parentNames_eq_ok_iff` say that reading a file finds just that.
-/

namespace CanTables

open Document

/-! ## Lists of parents -/

/-- The names that a value lists as its parents: those of a list of texts, and none where there is
no list. -/
inductive Document.Value.ListsParents (v : Value) : List String → Prop where
  | absent (none : v.field? parentsKey = none) : v.ListsParents []
  | listed {names : List String} (list : v.field? parentsKey = some (.array (names.map .text))) :
      v.ListsParents names

theorem Schema.Reader.text_eq_ok_iff {v : Value} {s : String} :
    Schema.Reader.text v = .ok s ↔ v = .text s := by
  cases v <;> simp [Schema.Reader.text]

theorem Schema.Reader.list_text_eq_ok_iff {v : Value} {names : List String} :
    Schema.Reader.list Schema.Reader.text v = .ok names ↔ v = .array (names.map .text) := by
  cases v with
  | array items =>
    show items.mapM Schema.Reader.text = .ok names ↔ _
    rw [Except.mapM_eq_ok_iff, Value.array.injEq, ← List.forall₂_eq_eq_eq,
      List.forall₂_map_right_iff]
    simp only [Schema.Reader.text_eq_ok_iff]
  | _ => exact ⟨nofun, nofun⟩

theorem Document.Value.ListsParents.unique {v : Value} {names names' : List String}
    (h : v.ListsParents names) (h' : v.ListsParents names') : names = names' := by
  cases h with
  | absent hnone =>
    cases h' with
    | absent _ => rfl
    | listed hlist => cases hnone.symm.trans hlist
  | listed hlist =>
    cases h' with
    | absent hnone => cases hnone.symm.trans hlist
    | listed hlist' =>
      rw [hlist, Option.some.injEq, Value.array.injEq] at hlist'
      exact List.map_injective_iff.mpr (fun _ _ => Value.text.inj) hlist'

/-- Exactly the lists of texts are read. -/
theorem parentNames_eq_ok_iff {path : String} {v : Value} {names : List String} :
    parentNames path v = .ok names ↔ v.ListsParents names := by
  unfold parentNames
  constructor
  · intro h
    split at h
    · next hnone =>
      cases h
      exact .absent hnone
    · next raw hraw =>
      rw [readRecord_eq_ok_iff, Schema.Reader.list_text_eq_ok_iff] at h
      exact .listed (hraw.trans (congrArg some h))
  · intro h
    cases h with
    | absent hnone => rw [hnone]
    | listed hlist =>
      rw [hlist]
      exact readRecord_eq_ok_iff.mpr (Schema.Reader.list_text_eq_ok_iff.mpr rfl)

namespace Catalog

/-! ## The graph -/

/-- A name stands for the file at a place. -/
def StandsFor (c : Catalog) (name : String) (place : Location) : Prop :=
  ∃ found, c.find name = .ok found ∧ found.place = place

/-- The file at a place holds a configuration value. -/
def Holds (c : Catalog) (place : Location) (v : Value) : Prop :=
  ∃ text, c.store.item? place = some (.file (.text text)) ∧ Value.ofText? maxDepth text = some v

/-- The file at a place lists a name among its parents. -/
def Lists (c : Catalog) (place : Location) (name : String) : Prop :=
  ∃ v names, c.Holds place v ∧ v.ListsParents names ∧ name ∈ names

/-- The file at the first place names the file at the second one as a parent. -/
def IsParent (c : Catalog) (place parent : Location) : Prop :=
  ∃ name, c.Lists place name ∧ c.StandsFor name parent

/-- The file at the second place is a parent of the file at the first one, or a parent of a parent,
and so on. -/
def IsAncestor (c : Catalog) : Location → Location → Prop := Relation.TransGen c.IsParent

/-- The names that following parents comes to from a name. -/
inductive Reaches (c : Catalog) (start : String) : String → Prop where
  | start : Reaches c start start
  | parent {name parent : String} {place : Location} (reached : Reaches c start name)
      (stands : c.StandsFor name place) (listed : c.Lists place parent) : Reaches c start parent

/-- A file is found under a name, holds a configuration value, and its parents are a list of
texts. -/
def Readable (c : Catalog) (name : String) : Prop :=
  ∃ place v names, c.StandsFor name place ∧ c.Holds place v ∧ v.ListsParents names

variable {c : Catalog}

theorem StandsFor.unique {name : String} {place place' : Location} (h : c.StandsFor name place)
    (h' : c.StandsFor name place') : place = place' := by
  obtain ⟨found, hfound, rfl⟩ := h
  obtain ⟨found', hfound', rfl⟩ := h'
  cases hfound.symm.trans hfound'
  rfl

theorem Holds.unique {place : Location} {v w : Value} (h : c.Holds place v)
    (h' : c.Holds place w) : v = w := by
  obtain ⟨text, hitem, hv⟩ := h
  obtain ⟨text', hitem', hw⟩ := h'
  cases hitem.symm.trans hitem'
  exact Option.some.inj (hv.symm.trans hw)

theorem Holds.ordered {place : Location} {v : Value} (h : c.Holds place v) : v.Ordered := by
  obtain ⟨text, -, hv⟩ := h
  exact Value.ordered_of_ofText? hv

theorem Reaches.trans {start name name' : String} (h : c.Reaches start name)
    (h' : c.Reaches name name') : c.Reaches start name' := by
  induction h' with
  | start => exact h
  | parent _ stands listed ih => exact .parent ih stands listed

/-! ## Reading a file -/

theorem valueOf_eq_ok_iff {s : Store} {found : s.FoundFile} {v : Value} :
    valueOf found = .ok v ↔
      ∃ text, found.content = .text text ∧ Value.ofText? maxDepth text = some v := by
  obtain ⟨path, place, content, isFile⟩ := found
  unfold valueOf textOf
  cases content with
  | binary => exact ⟨nofun, nofun⟩
  | text text =>
    simp only [Except.ok_bind, Content.text.injEq, exists_eq_left']
    split
    · next w hw => rw [hw, Except.ok.injEq, Option.some.injEq]
    · next hw =>
      rw [hw]
      exact ⟨nofun, nofun⟩

/-- What is read is what the file that was found holds. -/
theorem readValue_eq_ok_iff {name : String} {found : c.store.FoundFile} {v : Value} :
    c.readValue name = .ok (found, v) ↔ c.find name = .ok found ∧ c.Holds found.place v := by
  have holds : c.Holds found.place v ↔ valueOf found = .ok v := by
    rw [valueOf_eq_ok_iff, Holds, found.isFile]
    simp only [Option.some.injEq, Item.file.injEq]
  rw [holds, readValue, Except.bind_eq_ok_iff]
  constructor
  · rintro ⟨found', hfind, h⟩
    obtain ⟨v', hv, h⟩ := Except.bind_eq_ok_iff.mp h
    cases h
    exact ⟨hfind, hv⟩
  · rintro ⟨hfind, hv⟩
    exact ⟨found, hfind, Except.bind_eq_ok_iff.mpr ⟨v, hv, rfl⟩⟩

theorem Readable.exists_readValue {name : String} (h : c.Readable name) :
    ∃ found v names, c.readValue name = .ok (found, v) ∧ v.ListsParents names := by
  obtain ⟨_, v, names, ⟨found, hfind, rfl⟩, hv, hnames⟩ := h
  exact ⟨found, v, names, readValue_eq_ok_iff.mpr ⟨hfind, hv⟩, hnames⟩

end Catalog

end CanTables
