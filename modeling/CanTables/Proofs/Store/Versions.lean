import CanTables.Proofs.Assembly.Spelling

/-!
# CanTables.Proofs.Store.Versions — two versions of a file tree

Two versions of a store have the same places, and the same at each place but for files whose
messages spell identifiers in other ways.  Names stand for the same places in both, so a file that
is found in one is found in the other, and what it holds is the same or is respelled.
-/

namespace CanTables

open Document Positions

/-! ## What is at a place -/

/-- Two versions of a file's value: one value, or two that differ in spellings. -/
def Versions (v v' : Value) : Prop := v' = v ∨ Differ Respelled v v'

/-- Two versions of what a file holds: the same, or two texts of values whose messages spell
identifiers in other ways. -/
inductive Content.Respelled : Content → Content → Prop where
  | same (content : Content) : Content.Respelled content content
  | text {t t' : String} {v v' : Value} (read : Value.ofText? maxDepth t = some v)
      (read' : Value.ofText? maxDepth t' = some v') (file : Differ CanTables.Respelled v v') :
      Content.Respelled (.text t) (.text t')

/-- Two versions of what is at a place. -/
inductive Item.Respelled : Item → Item → Prop where
  | directory : Item.Respelled .directory .directory
  | file {content content' : Content} (holds : content.Respelled content') :
      Item.Respelled (.file content) (.file content')

/-- Two versions of a store: the same places with what is respelled at most. -/
structure Store.Respelled (s s' : Store) : Prop where
  items : List.Forall₂ (fun entry entry' => entry.1 = entry'.1 ∧ entry.2.Respelled entry'.2)
    s.items s'.items
  workingDirectory : s.workingDirectory = s'.workingDirectory

/-- Two versions of a catalog, in which names are looked up alike. -/
structure Catalog.Respelled (c c' : Catalog) : Prop where
  store : c.store.Respelled c'.store
  directories : c.directories = c'.directories

/-! ## The relation is symmetric -/

theorem Respelled.symm {m m' : Fields} (h : Respelled m m') : Respelled m' m where
  once := by
    intro id
    have hlength := congrArg List.length (h.said id)
    rw [List.length_map, List.length_map] at hlength
    rw [← hlength]
    exact h.once id
  said := fun id => (h.said id).symm
  other := fun key hkey => (h.other key hkey).symm

theorem Differ.symm {Q : Fields → Fields → Prop} (hQ : ∀ m m', Q m m' → Q m' m) {v v' : Value}
    (h : Differ Q v v') : Differ Q v' v where
  rest := h.rest.symm
  messages := by
    have hmessages := h.messages
    generalize v.field? messagesKey = o at hmessages ⊢
    generalize v'.field? messagesKey = o' at hmessages ⊢
    cases hmessages with
    | objects related => exact .objects (hQ _ _ related)
    | same hnot => exact .same hnot

theorem Content.Respelled.symm {content content' : Content} (h : content.Respelled content') :
    content'.Respelled content := by
  cases h with
  | same => exact .same _
  | text read read' file => exact .text read' read (file.symm fun _ _ => CanTables.Respelled.symm)

theorem Item.Respelled.symm {item item' : Item} (h : item.Respelled item') :
    item'.Respelled item := by
  cases h with
  | directory => exact .directory
  | file holds => exact .file holds.symm

theorem Store.Respelled.symm {s s' : Store} (h : s.Respelled s') : s'.Respelled s where
  items := h.items.flip.imp fun _ _ hentry => ⟨hentry.1.symm, hentry.2.symm⟩
  workingDirectory := h.workingDirectory.symm

theorem Catalog.Respelled.symm {c c' : Catalog} (h : c.Respelled c') : c'.Respelled c :=
  ⟨h.store.symm, h.directories.symm⟩

/-! ## Finding a file -/

namespace Store.Respelled

variable {s s' : Store}

theorem item? (h : s.Respelled s') (place : Location) :
    Option.Rel Item.Respelled (s.item? place) (s'.item? place) := by
  unfold Store.item?
  split
  · exact .some .directory
  · have hitems := h.items
    generalize s.items = items at hitems
    generalize s'.items = items' at hitems
    induction hitems with
    | nil => exact .none
    | @cons entry entry' rest rest' hentry _ ih =>
      rw [List.find?_cons, List.find?_cons, hentry.1]
      split
      · exact .some hentry.2
      · exact ih

theorem isDirectory (h : s.Respelled s') (place : Location) :
    s.isDirectory place = s'.isDirectory place := by
  have hitem := h.item? place
  rw [Store.isDirectory, Store.isDirectory]
  generalize s.item? place = o at hitem
  generalize s'.item? place = o' at hitem
  cases hitem with
  | none => rfl
  | some hitem => cases hitem <;> rfl

theorem enter? (h : s.Respelled s') (place : Location) (name : String) :
    s.enter? place name = s'.enter? place name := by
  have hsome : (s.item? (place ++ [name])).isSome = (s'.item? (place ++ [name])).isSome := by
    have hitem := h.item? (place ++ [name])
    generalize s.item? (place ++ [name]) = o at hitem ⊢
    generalize s'.item? (place ++ [name]) = o' at hitem ⊢
    cases hitem <;> rfl
  rw [Store.enter?, Store.enter?, h.isDirectory, hsome]

/-- A path names the same place in both versions. -/
theorem locate? (h : s.Respelled s') (path : String) : s.locate? path = s'.locate? path := by
  have henter : s.enter? = s'.enter? := funext fun place => funext (h.enter? place)
  rw [Store.locate?, Store.locate?, henter, h.workingDirectory]

end Store.Respelled

/-- Two versions of a file, found by one path at one place. -/
structure SameFile {s s' : Store} (found : s.FoundFile) (found' : s'.FoundFile) : Prop where
  path : found.path = found'.path
  place : found.place = found'.place
  content : found.content.Respelled found'.content

namespace Store

theorem file?_eq_some_iff {s : Store} {path : String} {found : s.FoundFile} :
    s.file? path = some found ↔ found.path = path ∧ s.locate? path = some found.place := by
  obtain ⟨path', place, content, isFile⟩ := found
  unfold file?
  constructor
  · intro h
    split at h
    · cases h
    · next place' hlocate =>
      split at h
      · cases h
        exact ⟨rfl, hlocate⟩
      · cases h
  · rintro ⟨rfl, hlocate⟩
    have hplace : s.locate? path' = some place := hlocate
    rw [hplace]
    dsimp only
    split
    · next content' hitem =>
      rw [isFile, Option.some.injEq, Item.file.injEq] at hitem
      subst hitem
      rfl
    · next hnone => exact absurd isFile (hnone content)

variable {s s' : Store}

/-- A file that a path names in one version is named by it in the other. -/
theorem Respelled.file? (h : s.Respelled s') (path : String) :
    Option.Rel SameFile (s.file? path) (s'.file? path) := by
  -- One direction is enough, as the relation is symmetric.
  have transfer : ∀ {s s' : Store}, s.Respelled s' → ∀ found, s.file? path = some found →
      ∃ found', s'.file? path = some found' ∧ SameFile found found' := by
    intro s s' h found hfound
    obtain ⟨hpath, hplace⟩ := file?_eq_some_iff.mp hfound
    have hitem := h.item? found.place
    rw [found.isFile] at hitem
    generalize hitem' : s'.item? found.place = o' at hitem
    cases hitem with
    | some hitem =>
      cases hitem with
      | @file _ content' hcontent =>
        refine ⟨⟨found.path, found.place, content', hitem'⟩, ?_, rfl, rfl, hcontent⟩
        exact file?_eq_some_iff.mpr ⟨hpath, (h.locate? path).symm.trans hplace⟩
  cases hfile : s.file? path with
  | some found =>
    obtain ⟨found', hfound', hsame⟩ := transfer h found hfile
    rw [hfound']
    exact .some hsame
  | none =>
    cases hfile' : s'.file? path with
    | none => exact .none
    | some found' =>
      obtain ⟨found, hfound, -⟩ := transfer h.symm found' hfile'
      rw [hfile] at hfound
      cases hfound

end Store

namespace Catalog

variable {c c' : Catalog}

/-- A name stands for the same file in both versions. -/
theorem Respelled.find (h : c.Respelled c') {name : String} {found : c.store.FoundFile}
    (hfind : c.find name = .ok found) :
    ∃ found', c'.find name = .ok found' ∧ SameFile found found' := by
  have hcandidates : c.candidates name = c'.candidates name := by
    rw [candidates, candidates, h.directories]
  have hrel : Option.Rel SameFile ((c.candidates name).findSome? c.store.file?)
      ((c'.candidates name).findSome? c'.store.file?) := by
    rw [hcandidates]
    induction c'.candidates name with
    | nil => exact .none
    | cons path rest ih =>
      rw [List.findSome?_cons, List.findSome?_cons]
      have hfile := h.store.file? path
      generalize c.store.file? path = o at hfile ⊢
      generalize c'.store.file? path = o' at hfile ⊢
      cases hfile with
      | some hsame => exact .some hsame
      | none => exact ih
  unfold Catalog.find at hfind ⊢
  generalize (c.candidates name).findSome? c.store.file? = o at hrel hfind
  generalize (c'.candidates name).findSome? c'.store.file? = o' at hrel
  cases hrel with
  | none => cases hfind
  | @some _ found' hsame =>
    cases hfind
    exact ⟨found', rfl, hsame⟩

theorem valueOf_of_text {s : Store} {found : s.FoundFile} {t : String} {v : Value}
    (htext : found.content = .text t) (read : Value.ofText? maxDepth t = some v) :
    valueOf found = .ok v := by
  obtain ⟨path, place, content, isFile⟩ := found
  obtain rfl : content = .text t := htext
  refine Except.bind_eq_ok_iff.mpr ⟨t, rfl, ?_⟩
  rw [read]

/-- The value that a file holds in the other version: the same, or a respelled one. -/
theorem valueOf_respelled {s s' : Store} {found : s.FoundFile} {found' : s'.FoundFile}
    (h : SameFile found found') {v : Value} (hv : valueOf found = .ok v) :
    ∃ v', valueOf found' = .ok v' ∧ Versions v v' := by
  obtain ⟨path, place, content, isFile⟩ := found
  obtain ⟨path', place', content', isFile'⟩ := found'
  obtain rfl : path = path' := h.path
  have hcontent : content.Respelled content' := h.content
  cases hcontent with
  | same => exact ⟨v, hv, .inl rfl⟩
  | @text t t' w w' read read' file =>
    rw [valueOf_of_text rfl read, Except.ok.injEq] at hv
    rw [← hv]
    exact ⟨w', valueOf_of_text rfl read', .inr file⟩

theorem Respelled.readValue (h : c.Respelled c') {name : String} {found : c.store.FoundFile}
    {v : Value} (hread : c.readValue name = .ok (found, v)) :
    ∃ found' v', c'.readValue name = .ok (found', v') ∧ SameFile found found' ∧
      Versions v v' := by
  obtain ⟨found₁, hfind, hread⟩ := Except.bind_eq_ok_iff.mp hread
  obtain ⟨v₁, hv, hread⟩ := Except.bind_eq_ok_iff.mp hread
  cases hread
  obtain ⟨found', hfind', hsame⟩ := h.find hfind
  obtain ⟨v', hv', hversions⟩ := valueOf_respelled hsame hv
  refine ⟨found', v', Except.bind_eq_ok_iff.mpr ⟨found', hfind', ?_⟩, hsame, hversions⟩
  exact Except.bind_eq_ok_iff.mpr ⟨v', hv', rfl⟩

end Catalog

end CanTables
