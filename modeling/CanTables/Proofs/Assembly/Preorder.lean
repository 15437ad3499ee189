import CanTables.Proofs.Assembly.Ancestry
import CanTables.Proofs.Document.Path

/-!
# CanTables.Proofs.Assembly.Preorder — what a lineage makes up, file by file

Parents are merged in nested steps: a chain from the top down, several parents one under the other,
each with its own ancestors merged before.  If files are consistent the nesting does not matter, and
what they make up is their fold in one order, that of the search turned around
(`Catalog.lineage_eq_layered`): parents come before their child, a later parent before an earlier
one, and a file as often as it is reached.
-/

namespace CanTables

open Document Value Positions

namespace Catalog

variable {c : Catalog}

/-! ## Files in the order of the search -/

/-- The files that following parents comes to from a name, each without its list of parents: a child
before its parents, the parents from first to last, and a file once for each branch it is on. -/
inductive PreOrder (c : Catalog) : String → List Value → Prop where
  | file {name : String} {place : Location} {v : Value} {names : List String}
      {above : List (List Value)} (stands : c.StandsFor name place) (holds : c.Holds place v)
      (listed : v.ListsParents names) (parents : List.Forall₂ (PreOrder c) names above) :
      PreOrder c name (v.eraseField parentsKey :: above.flatten)

/-- A value that a file within reach holds. -/
def InReach (c : Catalog) (start : String) (v : Value) : Prop :=
  ∃ name place, c.Reaches start name ∧ c.StandsFor name place ∧ c.Holds place v

theorem filesOfAll_eq_flatten (all : List Lineage) :
    Lineage.filesOfAll all = (all.map Lineage.files).flatten := by
  induction all with
  | nil => rfl
  | cons lineage rest ih => rw [Lineage.filesOfAll, ih, List.map_cons, List.flatten_cons]

/-- The files of a lineage are in the order of the search. -/
theorem preOrder_iff_of_lineageBelow {branch : List Location} {name : String} {lineage : Lineage}
    (h : (c.lineageBelow branch name).outcome = .ok lineage) {files : List Value} :
    c.PreOrder name files ↔ files = lineage.files := by
  induction lineage generalizing branch name files with
  | node path own parents ih =>
    obtain ⟨found, value, names, parents', hread, -, hnames, hparents, heq⟩ :=
      lineageBelow_eq_ok_iff.mp h
    cases heq
    obtain ⟨hfind, holds⟩ := readValue_eq_ok_iff.mp hread
    have hnames := parentNames_eq_ok_iff.mp hnames
    have habove : ∀ {above : List (List Value)},
        List.Forall₂ (PreOrder c) names above ↔ above = parents.map Lineage.files :=
      forall₂_iff_eq_map (forall₂_of_mem hparents fun parent below _ hmem hbelow _ =>
        ih below hmem hbelow)
    rw [Lineage.files_node, filesOfAll_eq_flatten]
    constructor
    · rintro ⟨stands, hv, hlisted, hall⟩
      obtain rfl := stands.unique ⟨found, hfind, rfl⟩
      obtain rfl := hv.unique holds
      obtain rfl := hlisted.unique hnames
      rw [habove.mp hall]
    · rintro rfl
      exact .file ⟨found, hfind, rfl⟩ holds hnames (habove.mpr rfl)

/-- The files of a lineage are those within reach. -/
theorem mem_files_iff {branch : List Location} {name : String} {lineage : Lineage}
    (h : (c.lineageBelow branch name).outcome = .ok lineage) {file : Value} :
    file ∈ lineage.files ↔ ∃ v, c.InReach name v ∧ file = v.eraseField parentsKey := by
  constructor
  · intro hmem
    induction lineage generalizing branch name with
    | node path own parents ih =>
      obtain ⟨found, value, names, parents', hread, -, hnames, hparents, heq⟩ :=
        lineageBelow_eq_ok_iff.mp h
      cases heq
      obtain ⟨hfind, holds⟩ := readValue_eq_ok_iff.mp hread
      have stands : c.StandsFor name found.place := ⟨found, hfind, rfl⟩
      rw [Lineage.files_node] at hmem
      rcases List.mem_cons.mp hmem with rfl | hmem
      · exact ⟨value, ⟨name, found.place, .start, stands, holds⟩, rfl⟩
      · obtain ⟨below, hbelow, hmem⟩ := Lineage.mem_filesOfAll_iff.mp hmem
        obtain ⟨parent, hparent, hbelow'⟩ := exists_left_of_forall₂ hparents hbelow
        obtain ⟨v, ⟨name', place, hreach, hv⟩, rfl⟩ := ih below hbelow hbelow' hmem
        have listed : c.Lists found.place parent :=
          ⟨value, names, holds, parentNames_eq_ok_iff.mp hnames, hparent⟩
        exact ⟨v, ⟨name', place, (Reaches.parent .start stands listed).trans hreach, hv⟩, rfl⟩
  · rintro ⟨v, ⟨name', place, hreach, stands, holds⟩, rfl⟩
    obtain ⟨branch', part, h', hpart⟩ := exists_lineageBelow_of_reaches h hreach
    obtain ⟨found, value, names, parents, hread, -, -, -, rfl⟩ := lineageBelow_eq_ok_iff.mp h'
    obtain ⟨hfind, holds'⟩ := readValue_eq_ok_iff.mp hread
    obtain rfl := stands.unique ⟨found, hfind, rfl⟩
    obtain rfl := holds.unique holds'
    refine hpart ?_
    rw [Lineage.files_node]
    exact List.mem_cons_self

/-- Values within reach are consistent objects if the files of the lineage are. -/
theorem consistent_of_files {branch : List Location} {name : String} {lineage : Lineage}
    (h : (c.lineageBelow branch name).outcome = .ok lineage)
    (objects : ∀ v ∈ lineage.files, v.IsObject)
    (consistent : ∀ v ∈ lineage.files, ∀ w ∈ lineage.files, Consistent v w) {v w : Value}
    (hv : c.InReach name v) (hw : c.InReach name w) : v.IsObject ∧ Consistent v w := by
  -- The lists of parents, which are not in the files of the lineage, are arrays.
  have hreach : ∀ u, c.InReach name u → ∃ fields : Fields, u = .object fields ∧
      ∀ x, fields.get? parentsKey = some x → ∃ items, x = Value.array items := by
    rintro u ⟨name', place, hreach, stands, holds⟩
    have hobject := objects _ ((mem_files_iff h).mpr
      ⟨u, ⟨name', place, hreach, stands, holds⟩, rfl⟩)
    obtain ⟨place', u', names, stands', holds', hnames⟩ := readable_of_reaches h hreach
    obtain rfl := stands.unique stands'
    obtain rfl := holds.unique holds'
    obtain ⟨fields, rfl⟩ : u.IsObject := by
      cases u with
      | object fields => exact ⟨fields, rfl⟩
      | _ => exact hobject
    refine ⟨fields, rfl, fun x hx => ?_⟩
    cases hnames with
    | absent hnone => cases hnone.symm.trans hx
    | listed hlist => exact ⟨_, Option.some.inj (hx.symm.trans hlist)⟩
  obtain ⟨m, rfl, hm⟩ := hreach v hv
  obtain ⟨n, rfl, hn⟩ := hreach w hw
  have hfiles := consistent _ ((mem_files_iff h).mpr ⟨_, hv, rfl⟩) _
    ((mem_files_iff h).mpr ⟨_, hw, rfl⟩)
  refine ⟨⟨m, rfl⟩, hfiles.of_eraseField fun x y hx hy => ?_⟩
  obtain ⟨xs, rfl⟩ := hm x hx
  obtain ⟨ys, rfl⟩ := hn y hy
  exact (OneKind.array xs ys).consistent

/-! ## One order for all files -/

/-- Objects put on top of each other one by one are a pile of them. -/
theorem piles_layered_singles {values : List Value} (objects : ∀ v ∈ values, v.IsObject) :
    Piles values (Value.layered values) := by
  have hsingle : List.Forall₂ Pile (values.map fun v => [v]) values := by
    rw [List.forall₂_map_left_iff, List.forall₂_same]
    exact fun v _ => .single v
  have hpiles := piles_layered hsingle objects
  rwa [← List.flatMap_def, List.flatMap_singleton'] at hpiles

/-- Where the files within reach of a file are consistent objects and none is its own ancestor, the
file makes up with its ancestors what all of them do one after the other, against the order of the
search. -/
theorem lineage_eq_layered (c : Catalog) (start : String)
    (readable : ∀ name, c.Reaches start name → c.Readable name)
    (acyclic : ∀ name place, c.Reaches start name → c.StandsFor name place →
      ¬ c.IsAncestor place place)
    (objects : ∀ v, c.InReach start v → v.IsObject)
    (consistent : ∀ v w, c.InReach start v → c.InReach start w → Consistent v w) :
    ∃ lineage, (c.lineage start).outcome = .ok lineage ∧ (∃ files, c.PreOrder start files) ∧
      ∀ files, c.PreOrder start files →
        Value.layered files.reverse = some lineage.merged ∧ lineage.merged.Shows files := by
  have leads : c.Leads [] start := fun _ _ _ hmem => absurd hmem List.not_mem_nil
  obtain ⟨lineage, h⟩ := exists_lineageBelow leads readable acyclic
  refine ⟨lineage, h, ⟨_, (preOrder_iff_of_lineageBelow h).mpr rfl⟩, fun files hfiles => ?_⟩
  obtain rfl := (preOrder_iff_of_lineageBelow h).mp hfiles
  have hobjects : ∀ v ∈ lineage.files, v.IsObject := by
    intro v hv
    obtain ⟨w, hw, rfl⟩ := (mem_files_iff h).mp hv
    obtain ⟨fields, rfl⟩ := objects w hw
    exact ⟨_, rfl⟩
  have hconsistent : ∀ v ∈ lineage.files, ∀ w ∈ lineage.files, Consistent v w := by
    intro v hv w hw
    obtain ⟨v', hv', rfl⟩ := (mem_files_iff h).mp hv
    obtain ⟨w', hw', rfl⟩ := (mem_files_iff h).mp hw
    exact (consistent v' w' hv' hw').eraseField _
  have hpile := Lineage.pile_merged hobjects
  obtain ⟨layers, hlayers⟩ : ∃ layers : List OrderedValue,
      layers.map OrderedValue.value = lineage.files := CanLift.prf _ (lineageBelow_ordered h)
  rw [← hlayers] at hobjects hconsistent hpile ⊢
  refine ⟨?_, hpile.shows hconsistent⟩
  rw [← List.map_reverse] at hpile ⊢
  have hobjects' : ∀ v ∈ layers.reverse, v.value.IsObject :=
    fun v hv => hobjects v.value (List.mem_map_of_mem (List.mem_reverse.mp hv))
  have hpiles := piles_layered_singles (List.forall_mem_map.mpr hobjects')
  cases hlayered : Value.layered (layers.reverse.map OrderedValue.value) with
  | none => exact absurd (hpiles.eq_none_iff.mp hlayered) hpile.ne_nil
  | some v =>
    rw [hlayered] at hpiles
    have hkinds : (layers.reverse.map OrderedValue.value).Pairwise OneKind := by
      rw [List.map_reverse]
      refine List.pairwise_of_forall_mem_list fun v hv w hw => ?_
      exact (hconsistent v (List.mem_reverse.mp hv) w (List.mem_reverse.mp hw)).oneKind
    have settled := settled_of_oneKind hobjects' hkinds
    rw [settled.unique _ v lineage.merged (List.Subperm.refl _) hpiles hpile]

/-- Two parents with one parent.  The limits of that one are reached with the first parent, before
those of the second. -/
def siblings : Catalog := ofFiles [
  ("root.json", objectText [("name", "\"root\""), ("buses", "[\"diag\"]"),
    ("limits", objectText [("low", "0"), ("high", "10")])]),
  ("left.json", objectText [("parents", "[\"root.json\"]"), ("name", "\"left\""),
    ("buses", "[\"body\"]")]),
  ("right.json", objectText [("parents", "[\"./root.json\"]"), ("name", "\"right\""),
    ("limits", objectText [("low", "2")])]),
  ("child.json", objectText [("parents", "[\"left.json\", \"right.json\"]"),
    ("buses", "[\"hs\"]")])]

theorem lineage_eq_layered_siblings :
    ∃ lineage files, (siblings.lineage "child.json").outcome = .ok lineage ∧
      siblings.PreOrder "child.json" files ∧ files.length = 5 ∧
      Value.layered files.reverse = some lineage.merged ∧ lineage.merged.Shows files := by
  have hany : (siblings.lineage "child.json").outcome.toOption.any (fun lineage =>
      lineage.files.length = 5 ∧ (∀ v ∈ lineage.files, v.fields?.isSome) ∧
        ∀ v ∈ lineage.files, ∀ w ∈ lineage.files, isOneKind v w) = true := by
    decide +kernel
  obtain ⟨lineage, h, hfiles⟩ := Except.exists_of_any_toOption hany
  obtain ⟨hlength, hobjects, hkinds⟩ := of_decide_eq_true hfiles
  have objects : ∀ v ∈ lineage.files, v.IsObject := by
    intro v hv
    cases v with
    | object fields => exact ⟨fields, rfl⟩
    | _ => cases hobjects _ hv
  have consistent : ∀ v ∈ lineage.files, ∀ w ∈ lineage.files, Consistent v w :=
    fun v hv w hw => (OneKind.of_isOneKind (hkinds v hv w hw)).consistent
  obtain ⟨lineage', h', ⟨files, hfiles⟩, hall⟩ := lineage_eq_layered siblings "child.json"
    (fun name reached => readable_of_reaches h reached)
    (fun name place reached stands => not_isAncestor_self_of_reaches h reached stands)
    (fun v hv => (consistent_of_files h objects consistent hv hv).1)
    (fun v w hv hw => (consistent_of_files h objects consistent hv hw).2)
  obtain rfl : lineage = lineage' := Except.ok.inj (h.symm.trans h')
  refine ⟨lineage, files, h, hfiles, ?_, hall files hfiles⟩
  rw [(preOrder_iff_of_lineageBelow h).mp hfiles, hlength]

end Catalog

end CanTables
