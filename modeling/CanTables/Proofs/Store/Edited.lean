import CanTables.Proofs.Assembly.References
import CanTables.Proofs.Store.Versions

/-!
# CanTables.Proofs.Store.Edited — one file of a catalog rewritten

A catalog is edited at a place if the file there gets another text and nothing else changes
(`Catalog.EditedAt`).  Names stand for the same places before and after (`Catalog.EditedAt.find`), so
what does not depend on that file comes out as before: above all a lineage that does not pass
through it (`Catalog.EditedAt.lineageBelow`).

That one catalog is the other one edited is a symmetric relation, so one direction is enough
everywhere.
-/

namespace CanTables

open Document

/-- Two file trees that differ in the text of one file, which holds one value in the first and
another in the second. -/
structure Store.EditedAt (s s' : Store) (place : Location) (v v' : Value) : Prop where
  item?_of_ne : ∀ other, other ≠ place → s'.item? other = s.item? other
  holds : ∃ text, s.item? place = some (.file (.text text)) ∧ Value.ofText? maxDepth text = some v
  holds' : ∃ text, s'.item? place = some (.file (.text text)) ∧ Value.ofText? maxDepth text = some v'
  workingDirectory : s'.workingDirectory = s.workingDirectory

/-- Two catalogs with such file trees. -/
structure Catalog.EditedAt (c c' : Catalog) (place : Location) (v v' : Value) : Prop where
  store : c.store.EditedAt c'.store place v v'
  directories : c'.directories = c.directories

namespace Store.EditedAt

variable {s s' : Store} {place : Location} {v v' : Value}

theorem symm (h : s.EditedAt s' place v v') : s'.EditedAt s place v' v where
  item?_of_ne := fun other hother => (h.item?_of_ne other hother).symm
  holds := h.holds'
  holds' := h.holds
  workingDirectory := h.workingDirectory.symm

/-- What is at a place is of the same kind before and after. -/
theorem item?_cases (h : s.EditedAt s' place v v') (other : Location) :
    s'.item? other = s.item? other ∨
      ∃ content content', s.item? other = some (.file content) ∧
        s'.item? other = some (.file content') := by
  by_cases heq : other = place
  · obtain ⟨text, hitem, -⟩ := h.holds
    obtain ⟨text', hitem', -⟩ := h.holds'
    exact .inr ⟨_, _, heq ▸ hitem, heq ▸ hitem'⟩
  · exact .inl (h.item?_of_ne other heq)

theorem enter? (h : s.EditedAt s' place v v') (other : Location) (name : String) :
    s'.enter? other name = s.enter? other name := by
  have hdirectory : s'.isDirectory other = s.isDirectory other := by
    unfold isDirectory
    rcases h.item?_cases other with heq | ⟨content, content', hitem, hitem'⟩
    · rw [heq]
    · rw [hitem, hitem']
      rfl
  have hsome : (s'.item? (other ++ [name])).isSome = (s.item? (other ++ [name])).isSome := by
    rcases h.item?_cases (other ++ [name]) with heq | ⟨content, content', hitem, hitem'⟩
    · rw [heq]
    · rw [hitem, hitem']
      rfl
  rw [Store.enter?, Store.enter?, hdirectory, hsome]

/-- A path names the same place before and after. -/
theorem locate? (h : s.EditedAt s' place v v') (path : String) :
    s'.locate? path = s.locate? path := by
  have henter : s'.enter? = s.enter? := funext fun other => funext (h.enter? other)
  rw [Store.locate?, Store.locate?, henter, h.workingDirectory]

/-- A file that a path names is there before and after. -/
theorem exists_file? (h : s.EditedAt s' place v v') {path : String} {found : s.FoundFile}
    (hfound : s.file? path = some found) :
    ∃ found', s'.file? path = some found' ∧ found'.path = found.path ∧
      found'.place = found.place := by
  obtain ⟨hpath, hplace⟩ := file?_eq_some_iff.mp hfound
  obtain ⟨content', hitem⟩ : ∃ content', s'.item? found.place = some (.file content') := by
    rcases h.item?_cases found.place with heq | ⟨content, content', -, hitem'⟩
    · exact ⟨found.content, heq.trans found.isFile⟩
    · exact ⟨content', hitem'⟩
  refine ⟨⟨found.path, found.place, content', hitem⟩, ?_, rfl, rfl⟩
  exact file?_eq_some_iff.mpr ⟨hpath, (h.locate? path).trans hplace⟩

end Store.EditedAt

namespace Catalog.EditedAt

variable {c c' : Catalog} {place : Location} {v v' : Value}

theorem symm (h : c.EditedAt c' place v v') : c'.EditedAt c place v' v :=
  ⟨h.store.symm, h.directories.symm⟩

/-- A name stands for the file at the same place before and after. -/
theorem find (h : c.EditedAt c' place v v') {name : String} {found : c.store.FoundFile}
    (hfind : c.find name = .ok found) :
    ∃ found', c'.find name = .ok found' ∧ found'.path = found.path ∧
      found'.place = found.place := by
  have hcandidates : c'.candidates name = c.candidates name := by
    rw [candidates, candidates, h.directories]
  have hfirst : (c.candidates name).findSome? c.store.file? = some found := by
    unfold Catalog.find at hfind
    split at hfind
    · next hfound =>
      cases hfind
      exact hfound
    · cases hfind
  obtain ⟨before, path, after, hsplit, hpath, hbefore⟩ := List.findSome?_eq_some_iff.mp hfirst
  obtain ⟨found', hfound', hsame⟩ := h.store.exists_file? hpath
  have hnone : ∀ other ∈ before, c'.store.file? other = none := by
    intro other hother
    refine Option.eq_none_iff_forall_ne_some.mpr fun found'' hfound'' => ?_
    obtain ⟨found₀, hfound₀, -⟩ := h.store.symm.exists_file? hfound''
    rw [hbefore other hother] at hfound₀
    cases hfound₀
  have hfirst' : (c'.candidates name).findSome? c'.store.file? = some found' := by
    rw [hcandidates, hsplit]
    exact List.findSome?_eq_some_iff.mpr ⟨before, path, after, rfl, hfound', hnone⟩
  refine ⟨found', ?_, hsame⟩
  unfold Catalog.find
  rw [hfirst']

theorem standsFor (h : c.EditedAt c' place v v') {name : String} {other : Location}
    (stands : c.StandsFor name other) : c'.StandsFor name other := by
  obtain ⟨found, hfind, rfl⟩ := stands
  obtain ⟨found', hfind', -, hplace⟩ := h.find hfind
  exact ⟨found', hfind', hplace⟩

theorem holds_of_ne (h : c.EditedAt c' place v v') {other : Location} (hne : other ≠ place)
    {w : Value} (holds : c.Holds other w) : c'.Holds other w := by
  obtain ⟨text, hitem, hw⟩ := holds
  exact ⟨text, (h.store.item?_of_ne other hne).trans hitem, hw⟩

theorem holds (h : c.EditedAt c' place v v') : c.Holds place v := h.store.holds

/-- What a file holds after the edit, given what it held before. -/
theorem readValue (h : c.EditedAt c' place v v') {name : String} {found : c.store.FoundFile}
    {w : Value} (hread : c.readValue name = .ok (found, w)) :
    ∃ found' w', c'.readValue name = .ok (found', w') ∧ found'.path = found.path ∧
      found'.place = found.place ∧
      (found.place ≠ place ∧ w' = w ∨ found.place = place ∧ w = v ∧ w' = v') := by
  obtain ⟨hfind, holds⟩ := readValue_eq_ok_iff.mp hread
  obtain ⟨found', hfind', hpath, hplace⟩ := h.find hfind
  by_cases heq : found.place = place
  · refine ⟨found', v', readValue_eq_ok_iff.mpr ⟨hfind', ?_⟩, hpath, hplace, .inr ⟨heq, ?_, rfl⟩⟩
    · rw [hplace, heq]
      exact h.symm.holds
    · rw [heq] at holds
      exact holds.unique h.holds
  · refine ⟨found', w, readValue_eq_ok_iff.mpr ⟨hfind', ?_⟩, hpath, hplace, .inl ⟨heq, rfl⟩⟩
    rw [hplace]
    exact h.holds_of_ne heq holds

/-! ## Lineages that do not pass through the file -/

/-- What is within reach stays so, as long as the file is not passed. -/
theorem reaches (h : c.EditedAt c' place v v') {start name : String}
    (apart : ∀ name, c.Reaches start name → ¬ c.StandsFor name place)
    (reached : c'.Reaches start name) : c.Reaches start name := by
  induction reached with
  | start => exact .start
  | @parent name parent other _ stands listed ih =>
    obtain ⟨w, names, hw, hnames, hmem⟩ := listed
    have stands := h.symm.standsFor stands
    have hne : other ≠ place := fun heq => apart name ih (heq ▸ stands)
    exact .parent ih stands ⟨w, names, h.symm.holds_of_ne hne hw, hnames, hmem⟩

/-- The file is passed after the edit only where it was passed before. -/
theorem apart (h : c.EditedAt c' place v v') {start : String}
    (apart : ∀ name, c.Reaches start name → ¬ c.StandsFor name place) :
    ∀ name, c'.Reaches start name → ¬ c'.StandsFor name place := fun name reached stands =>
  apart name (h.reaches apart reached) (h.symm.standsFor stands)

/-- A lineage that does not pass through the file is there after the edit. -/
theorem lineageBelow (h : c.EditedAt c' place v v') {lineage : Lineage} {branch : List Location}
    {name : String} (apart : ∀ other, c.Reaches name other → ¬ c.StandsFor other place)
    (hlineage : (c.lineageBelow branch name).outcome = .ok lineage) :
    (c'.lineageBelow branch name).outcome = .ok lineage := by
  induction lineage generalizing branch name with
  | node path own parents ih =>
    obtain ⟨found, value, names, parents', hread, hnew, hnames, hparents, heq⟩ :=
      lineageBelow_eq_ok_iff.mp hlineage
    cases heq
    obtain ⟨hfind, holds⟩ := readValue_eq_ok_iff.mp hread
    have stands : c.StandsFor name found.place := ⟨found, hfind, rfl⟩
    obtain ⟨found', value', hread', hpath, hplace, hvalue⟩ := h.readValue hread
    obtain rfl : value' = value := by
      rcases hvalue with ⟨-, heq⟩ | ⟨heq, -⟩
      · exact heq
      · exact absurd (heq ▸ stands) (apart name .start)
    refine lineageBelow_eq_ok_iff.mpr ⟨found', value', names, parents, hread', ?_, ?_, ?_, ?_⟩
    · rw [hplace]
      exact hnew
    · rw [hpath]
      exact hnames
    · rw [hplace]
      refine Positions.forall₂_of_mem hparents fun parent below hmem hbelow hparent => ?_
      have listed : c.Lists found.place parent :=
        ⟨value', names, holds, parentNames_eq_ok_iff.mp hnames, hmem⟩
      refine ih below hbelow (fun other reached => apart other ?_) hparent
      exact (Reaches.parent .start stands listed).trans reached
    · rw [hpath]

end Catalog.EditedAt

end CanTables
