import CanTables.Proofs.Assembly.References
import CanTables.Proofs.Store.Files

/-!
# CanTables.Proofs.Assembly.Ancestry — when a lineage exists

Following parents is a search in the graph of files that remembers nothing but the branch it is on.
Every place on the branch has the file in hand as an ancestor, so a place that comes up again is its
own ancestor; and a file that is its own ancestor comes up again, since the search looks at
everything within reach.  Hence a lineage exists exactly when all files within reach are readable
and none of them is its own ancestor (`Catalog.lineage_terminates_and_exists_iff`).

The search ends although parents may be named at will: the places on a branch are distinct files of
the store.  `Catalog.lineageWithin` is the search with nothing to end it but a bound on the length
of branches, and a bound above the number of files is never reached.
-/

namespace CanTables

open Document Positions

namespace Catalog

variable {c : Catalog}

/-! ## The search ends -/

/-- What holds on a branch if it holds on every branch that is one file longer holds on all. -/
theorem branch_induction {P : List Location → String → Prop}
    (step : ∀ branch name, (∀ found, c.find name = .ok found → found.place ∉ branch →
      ∀ parent, P (found.place :: branch) parent) → P branch name)
    (branch : List Location) (name : String) : P branch name := by
  induction hcount : (c.store.unvisited branch).length using Nat.strongRecOn
    generalizing branch name with
  | ind count ih =>
    refine step branch name fun found _ hnew parent => ?_
    exact ih _ (hcount ▸ Store.unvisited_length_lt found.isFile hnew) _ parent rfl

/-- The lineage of a file, with at most so many files on a branch; nothing if that is not enough.
Only the bound ends the recursion. -/
def lineageWithin (c : Catalog) : Nat → List Location → String → OptionT Run Lineage
  | 0, _, _ => failure
  | bound + 1, branch, name => do
    let file ← (Run.lift (c.readValue name) : Run _)
    if branch.contains file.1.place then
      OptionT.lift (Run.fail (.ancestryLoop file.1.path))
    else
      let names ← (Run.lift (parentNames file.1.path file.2) : Run _)
      let parents ← names.mapM fun parent => do
        (Run.note .debug ("Merging parent " ++ parent ++ " under " ++ file.1.path) : Run _)
        c.lineageWithin bound (file.1.place :: branch) parent
      return .node file.1.path (file.2.eraseField parentsKey) parents

theorem liftM_mapM {α β : Type} (f : α → Run β) (l : List α) :
    (liftM (l.mapM f) : OptionT Run (List β)) = l.mapM fun a => liftM (f a) := by
  induction l with
  | nil => rfl
  | cons a rest ih => simp only [List.mapM_cons, liftM_bind, liftM_pure, ih]

/-- Where fewer files are left than the bound allows, the bound is not reached. -/
theorem lineageWithin_eq {bound : Nat} {branch : List Location}
    (h : (c.store.unvisited branch).length < bound) (name : String) :
    c.lineageWithin bound branch name = liftM (c.lineageBelow branch name) := by
  induction bound generalizing branch name with
  | zero => omega
  | succ bound ih =>
    rw [lineageWithin, lineageBelow, liftM_bind]
    refine bind_congr fun file => ?_
    obtain ⟨found, value⟩ := file
    dsimp only
    by_cases hnew : found.place ∈ branch
    · rw [if_pos (List.contains_iff_mem.mpr hnew), dif_pos hnew]
      rfl
    · -- The parents are looked at with one file fewer left and a bound that is one less.
      have hless := Store.unvisited_length_lt found.isFile hnew
      rw [if_neg (List.contains_iff_mem.not.mpr hnew), dif_neg hnew, liftM_bind]
      refine bind_congr fun names => ?_
      rw [liftM_bind, liftM_mapM]
      have hbelow : ∀ parent, c.lineageWithin bound (found.place :: branch) parent =
          liftM (c.lineageBelow (found.place :: branch) parent) :=
        ih (Nat.lt_of_lt_of_le hless (Nat.le_of_lt_succ h))
      simp only [liftM_bind, liftM_pure, hbelow]

/-! ## What the search finds -/

/-- The search succeeds at every name within reach, and what it finds there is part of what it finds
from the start. -/
theorem exists_lineageBelow_of_reaches {branch : List Location} {start : String} {lineage : Lineage}
    (h : (c.lineageBelow branch start).outcome = .ok lineage) {name : String}
    (reached : c.Reaches start name) :
    ∃ branch part, (c.lineageBelow branch name).outcome = .ok part ∧
      part.files ⊆ lineage.files := by
  induction reached with
  | start => exact ⟨branch, lineage, h, List.Subset.refl _⟩
  | @parent name parent place _ stands listed ih =>
    obtain ⟨branch', part, h', hpart⟩ := ih
    obtain ⟨found, value, names, parents, hread, -, hnames, hparents, rfl⟩ :=
      lineageBelow_eq_ok_iff.mp h'
    obtain ⟨hfind, holds⟩ := readValue_eq_ok_iff.mp hread
    obtain rfl := stands.unique ⟨found, hfind, rfl⟩
    obtain ⟨v, names', hv, hnames', hmem⟩ := listed
    obtain rfl := hv.unique holds
    obtain rfl := (parentNames_eq_ok_iff.mp hnames).unique hnames'
    obtain ⟨below, hmem', hbelow⟩ := exists_right_of_forall₂ hparents hmem
    refine ⟨_, below, hbelow, fun file hfile => hpart ?_⟩
    rw [Lineage.files_node]
    exact List.mem_cons_of_mem _ (Lineage.mem_filesOfAll_iff.mpr ⟨below, hmem', hfile⟩)

/-- Where the search succeeds, the file found is readable. -/
theorem readable_of_lineageBelow {branch : List Location} {name : String} {lineage : Lineage}
    (h : (c.lineageBelow branch name).outcome = .ok lineage) : c.Readable name := by
  obtain ⟨found, value, names, -, hread, -, hnames, -⟩ := lineageBelow_eq_ok_iff.mp h
  obtain ⟨hfind, holds⟩ := readValue_eq_ok_iff.mp hread
  exact ⟨found.place, value, names, ⟨found, hfind, rfl⟩, holds, parentNames_eq_ok_iff.mp hnames⟩

/-- Where the search succeeds, neither the file found nor any ancestor of it is on the branch, and
the file is none of its own ancestors. -/
theorem not_mem_branch_of_lineageBelow {lineage : Lineage} {branch : List Location} {name : String}
    (h : (c.lineageBelow branch name).outcome = .ok lineage) {place : Location}
    (stands : c.StandsFor name place) :
    place ∉ branch ∧ ∀ other, c.IsAncestor place other → other ∉ place :: branch := by
  induction lineage generalizing branch name place with
  | node path own parents ih =>
    obtain ⟨found, value, names, parents', hread, hnew, hnames, hparents, heq⟩ :=
      lineageBelow_eq_ok_iff.mp h
    cases heq
    obtain ⟨hfind, holds⟩ := readValue_eq_ok_iff.mp hread
    obtain rfl := stands.unique ⟨found, hfind, rfl⟩
    refine ⟨hnew, fun other hother => ?_⟩
    -- The first step up is to a parent whose own lineage lies on the longer branch.
    obtain ⟨next, ⟨parent, ⟨v, names', hv, hnames', hmem⟩, hnext⟩, hrest⟩ :=
      Relation.TransGen.head'_iff.mp hother
    obtain rfl := hv.unique holds
    obtain rfl := (parentNames_eq_ok_iff.mp hnames).unique hnames'
    obtain ⟨below, hbelow, hparent⟩ := exists_right_of_forall₂ hparents hmem
    obtain ⟨hnew', hnone⟩ := ih below hbelow hparent hnext
    rcases Relation.reflTransGen_iff_eq_or_transGen.mp hrest with rfl | hrest
    · exact hnew'
    · exact fun hmem => hnone other hrest (List.mem_cons_of_mem _ hmem)

theorem readable_of_reaches {branch : List Location} {start : String} {lineage : Lineage}
    (h : (c.lineageBelow branch start).outcome = .ok lineage) {name : String}
    (reached : c.Reaches start name) : c.Readable name := by
  obtain ⟨branch', part, h', -⟩ := exists_lineageBelow_of_reaches h reached
  exact readable_of_lineageBelow h'

theorem not_isAncestor_self_of_reaches {branch : List Location} {start : String}
    {lineage : Lineage} (h : (c.lineageBelow branch start).outcome = .ok lineage) {name : String}
    (reached : c.Reaches start name) {place : Location} (stands : c.StandsFor name place) :
    ¬ c.IsAncestor place place := by
  obtain ⟨branch', part, h', -⟩ := exists_lineageBelow_of_reaches h reached
  exact fun hloop =>
    (not_mem_branch_of_lineageBelow h' stands).2 place hloop List.mem_cons_self

/-! ## When the search succeeds -/

/-- Every place on a branch has the file that a name stands for as an ancestor. -/
def Leads (c : Catalog) (branch : List Location) (name : String) : Prop :=
  ∀ place, c.StandsFor name place → ∀ below ∈ branch, c.IsAncestor below place

theorem Leads.parent {branch : List Location} {name parent : String} {place : Location}
    (h : c.Leads branch name) (stands : c.StandsFor name place) (listed : c.Lists place parent) :
    c.Leads (place :: branch) parent := by
  intro next hnext
  have hstep : c.IsParent place next := ⟨parent, listed, hnext⟩
  refine List.forall_mem_cons.mpr ⟨.single hstep, fun below hbelow => ?_⟩
  exact (h place stands below hbelow).tail hstep

/-- The search succeeds if all files within reach are readable and none is its own ancestor. -/
theorem exists_lineageBelow {branch : List Location} {name : String} (leads : c.Leads branch name)
    (readable : ∀ name', c.Reaches name name' → c.Readable name')
    (acyclic : ∀ name' place, c.Reaches name name' → c.StandsFor name' place →
      ¬ c.IsAncestor place place) :
    ∃ lineage, (c.lineageBelow branch name).outcome = .ok lineage := by
  induction branch, name using c.branch_induction with
  | step branch name ih =>
    obtain ⟨found, value, names, hread, hnames⟩ := (readable name .start).exists_readValue
    obtain ⟨hfind, holds⟩ := readValue_eq_ok_iff.mp hread
    have stands : c.StandsFor name found.place := ⟨found, hfind, rfl⟩
    -- What comes up again on a branch is its own ancestor.
    have hnew : found.place ∉ branch := fun hmem =>
      acyclic name _ .start stands (leads _ stands _ hmem)
    have hparents : ∀ parent ∈ names, ∃ lineage,
        (c.lineageBelow (found.place :: branch) parent).outcome = .ok lineage := by
      intro parent hmem
      have listed : c.Lists found.place parent := ⟨value, names, holds, hnames, hmem⟩
      have hreach : c.Reaches name parent := .parent .start stands listed
      exact ih found hfind hnew parent (leads.parent stands listed)
        (fun name' hname' => readable name' (hreach.trans hname'))
        fun name' place hname' => acyclic name' place (hreach.trans hname')
    obtain ⟨parents, hall⟩ := exists_forall₂_of_forall hparents
    exact ⟨_, lineageBelow_eq_ok_iff.mpr
      ⟨found, value, names, parents, hread, hnew, parentNames_eq_ok_iff.mpr hnames, hall, rfl⟩⟩

/-! ## What a loop means -/

/-- The search fails at a file that cannot be read or is on the branch already, or at one of its
parents. -/
theorem lineageBelow_eq_error {branch : List Location} {name : String} {fault : Fault}
    (h : (c.lineageBelow branch name).outcome = .error fault) :
    c.readValue name = .error fault ∨
      ∃ found value, c.readValue name = .ok (found, value) ∧
        (found.place ∈ branch ∧ fault = .ancestryLoop found.path ∨
          found.place ∉ branch ∧ (parentNames found.path value = .error fault ∨
            ∃ names parent, parentNames found.path value = .ok names ∧ parent ∈ names ∧
              (c.lineageBelow (found.place :: branch) parent).outcome = .error fault)) := by
  rw [lineageBelow, Run.outcome_bind, Except.bind_eq_error_iff] at h
  rcases h with h | ⟨⟨found, value⟩, hread, h⟩
  · exact .inl h
  refine .inr ⟨found, value, hread, ?_⟩
  dsimp only at h
  split at h
  · next hmem => exact .inl ⟨hmem, (Except.error.inj h).symm⟩
  · next hnew =>
    refine .inr ⟨hnew, ?_⟩
    rw [Run.outcome_bind, Except.bind_eq_error_iff] at h
    rcases h with h | ⟨names, hnames, h⟩
    · exact .inl h
    rw [Run.outcome_bind, Except.bind_eq_error_iff] at h
    rcases h with h | ⟨parents, -, h⟩
    · rw [Run.outcome_mapM] at h
      obtain ⟨parent, hmem, hparent⟩ := Except.exists_of_mapM_eq_error h
      exact .inr ⟨names, parent, hnames, hmem, by simpa using hparent⟩
    · cases h

theorem readValue_ne_ancestryLoop {name path : String} :
    c.readValue name ≠ .error (.ancestryLoop path) := by
  intro h
  rcases Except.bind_eq_error_iff.mp h with h | ⟨found, -, h⟩
  · unfold find at h
    split at h <;> cases h
  rcases Except.bind_eq_error_iff.mp h with h | ⟨value, -, h⟩
  · rcases Except.bind_eq_error_iff.mp h with h | ⟨text, -, h⟩
    · unfold textOf at h
      split at h <;> cases h
    · split at h <;> cases h
  · cases h

theorem parentNames_ne_ancestryLoop {path path' : String} {v : Value} :
    parentNames path v ≠ .error (.ancestryLoop path') := by
  intro h
  unfold parentNames readRecord at h
  split at h
  · cases h
  · split at h <;> cases h

/-- A loop is reported only where a file within reach is its own ancestor. -/
theorem exists_own_ancestor {branch : List Location} {name path : String}
    (leads : c.Leads branch name)
    (h : (c.lineageBelow branch name).outcome = .error (.ancestryLoop path)) :
    ∃ name' found, c.Reaches name name' ∧ c.find name' = .ok found ∧ found.path = path ∧
      c.IsAncestor found.place found.place := by
  induction branch, name using c.branch_induction with
  | step branch name ih =>
    rcases lineageBelow_eq_error h with h | ⟨found, value, hread, h⟩
    · exact absurd h readValue_ne_ancestryLoop
    obtain ⟨hfind, holds⟩ := readValue_eq_ok_iff.mp hread
    have stands : c.StandsFor name found.place := ⟨found, hfind, rfl⟩
    rcases h with ⟨hmem, hpath⟩ | ⟨hnew, h | ⟨names, parent, hnames, hmem, h⟩⟩
    · cases hpath
      exact ⟨name, found, .start, hfind, rfl, leads _ stands _ hmem⟩
    · exact absurd h parentNames_ne_ancestryLoop
    · have listed : c.Lists found.place parent :=
        ⟨value, names, holds, parentNames_eq_ok_iff.mp hnames, hmem⟩
      obtain ⟨name', found', hreach, hloop⟩ :=
        ih found hfind hnew parent (leads.parent stands listed) h
      exact ⟨name', found', (Reaches.parent .start stands listed).trans hreach, hloop⟩

/-! ## Lineages -/

/-- Following parents always ends, on branches of no more files than there are.  It succeeds exactly
when every file within reach is readable and none of them is its own ancestor; so a file that is
reached along two branches is no fault, and a loop is reported only where there is one. -/
theorem lineage_terminates_and_exists_iff (c : Catalog) (start : String) :
    c.lineageWithin (c.store.items.length + 1) [] start = liftM (c.lineage start) ∧
      ((∃ lineage, (c.lineage start).outcome = .ok lineage) ↔
        (∀ name, c.Reaches start name → c.Readable name) ∧
          ∀ name place, c.Reaches start name → c.StandsFor name place →
            ¬ c.IsAncestor place place) ∧
      ∀ path, (c.lineage start).outcome = .error (.ancestryLoop path) →
        ∃ name found, c.Reaches start name ∧ c.find name = .ok found ∧ found.path = path ∧
          c.IsAncestor found.place found.place := by
  have leads : c.Leads [] start := fun _ _ _ hmem => absurd hmem List.not_mem_nil
  have hcount : (c.store.unvisited []).length < c.store.items.length + 1 := by
    refine Nat.lt_succ_of_le (Nat.le_trans (List.length_filter_le _ _) (Nat.le_of_eq ?_))
    rw [List.length_map]
  refine ⟨lineageWithin_eq hcount start, ⟨?_, ?_⟩, fun path => exists_own_ancestor leads⟩
  · rintro ⟨lineage, h⟩
    exact ⟨fun name reached => readable_of_reaches h reached,
      fun name place reached stands => not_isAncestor_self_of_reaches h reached stands⟩
  · rintro ⟨readable, acyclic⟩
    exact exists_lineageBelow leads readable acyclic

/-- Two parents with one parent, under two names. -/
def diamond : Catalog := ofFiles [
  ("root.json", objectText [("name", "\"root\"")]),
  ("left.json", objectText [("parents", "[\"root.json\"]")]),
  ("right.json", objectText [("parents", "[\"./root.json\"]")]),
  ("child.json", objectText [("parents", "[\"left.json\", \"right.json\"]")])]

/-- Three files, the last of which has the second one as its parent, under another name. -/
def looped : Catalog := ofFiles [
  ("a.json", objectText [("parents", "[\"b.json\"]")]),
  ("b.json", objectText [("parents", "[\"c.json\"]")]),
  ("c.json", objectText [("parents", "[\".//b.json\"]")])]

theorem lineage_terminates_and_exists_iff_diamond :
    (∀ name, diamond.Reaches "child.json" name → diamond.Readable name) ∧
      ∃ name found, looped.Reaches "a.json" name ∧ looped.find name = .ok found ∧
        found.path = "././/b.json" ∧ looped.IsAncestor found.place found.place := by
  have hdiamond : (diamond.lineage "child.json").outcome.toOption.any
      (fun lineage => lineage.files.length = 5) = true := by
    decide +kernel
  have hlooped : ((looped.lineage "a.json").outcome.map fun _ => ()) =
      .error (.ancestryLoop "././/b.json") := by
    decide +kernel
  obtain ⟨lineage, hlineage, -⟩ := Except.exists_of_any_toOption hdiamond
  obtain ⟨-, hexists, -⟩ := lineage_terminates_and_exists_iff diamond "child.json"
  obtain ⟨-, -, hloop⟩ := lineage_terminates_and_exists_iff looped "a.json"
  refine ⟨(hexists.mp ⟨lineage, hlineage⟩).1, hloop _ ?_⟩
  cases h : (looped.lineage "a.json").outcome with
  | error fault =>
    rw [h] at hlooped
    exact congrArg Except.error (Except.error.inj hlooped)
  | ok lineage =>
    rw [h] at hlooped
    cases hlooped

end Catalog

end CanTables
