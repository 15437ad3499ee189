import CanTables.Compile
import CanTables.Proofs.Assembly.Ancestry

/-!
# CanTables.Proofs.Store.Directories — looking in more directories

A directory that is looked in after all others is looked in only for names that would be found
nowhere else.  A compilation that succeeds has found every name that it asked for, so it never comes
to look there: with any number of directories appended it is the same compilation, line by line of
its journal (`Catalog.compile_lookingIn`).

The argument goes through the pipeline once.  `Except.Survives` and `Run.Survives` say that one
computation does what another does wherever the other succeeds; every step of the pipeline keeps
that, the search for a lineage by induction on the files that are not on its branch yet.
-/

namespace CanTables

open Declaration

variable {α β ε : Type}

/-! ## Computations that succeed where others do -/

/-- What the first computation yields, the second one yields as well. -/
def Except.Survives (x y : Except ε α) : Prop := ∀ a, x = .ok a → y = .ok a

/-- Where the first computation succeeds, the second one yields the same with the same journal. -/
def Run.Survives (x y : Run α) : Prop := ∀ a, x.outcome = .ok a → y = x

namespace Except.Survives

theorem refl (x : Except ε α) : Survives x x := fun _ h => h

theorem bind {x y : Except ε α} {f g : α → Except ε β} (hx : Survives x y)
    (hf : ∀ a, x = .ok a → Survives (f a) (g a)) : Survives (x >>= f) (y >>= g) := by
  intro b h
  obtain ⟨a, ha, hb⟩ := Except.bind_eq_ok_iff.mp h
  exact Except.bind_eq_ok_iff.mpr ⟨a, hx a ha, hf a ha b hb⟩

theorem mapM {f g : α → Except ε β} (h : ∀ a, Survives (f a) (g a)) (l : List α) :
    Survives (l.mapM f) (l.mapM g) := fun _ hl =>
  Except.mapM_eq_ok_iff.mpr ((Except.mapM_eq_ok_iff.mp hl).imp fun a b => h a b)

end Except.Survives

namespace Run.Survives

theorem refl (x : Run α) : Survives x x := fun _ _ => rfl

theorem lift {x y : Except Fault α} (h : Except.Survives x y) :
    Survives (Run.lift x) (Run.lift y) := by
  intro a ha
  have hx : x = .ok a := ha
  rw [hx, h a hx]

theorem bind {x y : Run α} {f g : α → Run β} (hx : Survives x y)
    (hf : ∀ a, x.outcome = .ok a → Survives (f a) (g a)) : Survives (x >>= f) (y >>= g) := by
  intro b h
  obtain ⟨a, ha, hb⟩ := Run.bind_outcome_eq_ok_iff.mp h
  rw [hx a ha, Run.bind_of_ok ha, Run.bind_of_ok ha, hf a ha b hb]

theorem bind_self {x : Run α} {f g : α → Run β}
    (hf : ∀ a, x.outcome = .ok a → Survives (f a) (g a)) : Survives (x >>= f) (x >>= g) :=
  bind (refl x) hf

theorem mapM {f g : α → Run β} (h : ∀ a, Survives (f a) (g a)) (l : List α) :
    Survives (l.mapM f) (l.mapM g) := by
  induction l with
  | nil => exact refl _
  | cons a rest ih =>
    rw [List.mapM_cons, List.mapM_cons]
    exact bind (h a) fun b _ => bind ih fun bs _ => refl _

theorem ite {p : Prop} [Decidable p] {x y x' y' : Run α} (h : Survives x y)
    (h' : Survives x' y') : Survives (if p then x else x') (if p then y else y') := by
  split
  · exact h
  · exact h'

end Run.Survives

namespace Catalog

/-- The catalog with more directories to look in, after all that it has. -/
@[reducible]
def lookingIn (c : Catalog) (more : List String) : Catalog :=
  { c with directories := c.directories ++ more }

variable (c : Catalog) (more : List String)

/-! ## Files -/

/-- A name that is found is found in the same place, as the first directory that has it counts. -/
theorem find_lookingIn (name : String) :
    Except.Survives (c.find name) ((c.lookingIn more).find name) := by
  intro found h
  have hfirst : (c.candidates name).findSome? c.store.file? = some found := by
    unfold find at h
    split at h
    · next found' hfound =>
      cases h
      exact hfound
    · cases h
  have hmore : ((c.lookingIn more).candidates name).findSome? c.store.file? = some found := by
    cases habsolute : isAbsolute name with
    | true =>
      rw [candidates, if_pos habsolute] at hfirst ⊢
      exact hfirst
    | false =>
      rw [candidates, if_neg (Bool.not_eq_true _ ▸ habsolute)] at hfirst ⊢
      rw [List.map_append, List.findSome?_append, hfirst, Option.some_or]
  unfold find
  rw [hmore]

theorem readText_lookingIn (name : String) :
    Except.Survives (c.readText name) ((c.lookingIn more).readText name) :=
  .bind (c.find_lookingIn more name) fun _ _ => .refl _

theorem readValue_lookingIn (name : String) :
    Except.Survives (c.readValue name) ((c.lookingIn more).readValue name) :=
  .bind (c.find_lookingIn more name) fun _ _ => .refl _

/-! ## Message sets -/

/-- A lineage that exists stays as it is: a loop is a matter of places, and the places are the
same. -/
theorem lineageBelow_lookingIn (branch : List Location) (name : String) :
    Run.Survives (c.lineageBelow branch name) ((c.lookingIn more).lineageBelow branch name) := by
  induction branch, name using c.branch_induction with
  | step branch name ih =>
    rw [lineageBelow, lineageBelow]
    refine .bind (.lift (c.readValue_lookingIn more name)) fun read hread => ?_
    obtain ⟨found, value⟩ := read
    obtain ⟨hfind, -⟩ := readValue_eq_ok_iff.mp hread
    dsimp only
    split
    · exact .refl _
    · next hnew =>
      refine .bind_self fun names _ => .bind (.mapM (fun parent => ?_) names) fun _ _ => .refl _
      exact .bind_self fun _ _ => ih found hfind hnew parent

theorem importUnder_lookingIn (origin : Origin) (database : Option String)
    (messages : Document.Fields) :
    Run.Survives (c.importUnder origin database messages)
      ((c.lookingIn more).importUnder origin database messages) := by
  cases database with
  | none => exact .refl _
  | some name => exact .bind (.lift (c.find_lookingIn more name)) fun _ _ => .refl _

/-- Whether a mapping is loaded at all, and what is reported before it is. -/
def mappingOpened (settings : Settings) (set : String) (hasBus : String → Bool)
    (r : MappingReference) : Run Bool := do
  if !r.enabled then
    Run.report (.ofSet set) .warn ("Mapping '" ++ r.mapping ++ "' is disabled")
  if !r.enabled && settings.skipDisabledMappings then
    return false
  else
    match r.bus with
    | none =>
      Run.report (.ofSet set) .warn
        ("No default bus associated with '" ++ r.mapping ++ "' mapping")
    | some bus =>
      if hasBus bus then Pure.pure () else Run.fail (.undefinedMappingBus bus r.mapping)
    return true

/-- What a mapping that is loaded contributes. -/
def mappingLoaded (c : Catalog) (set : String) (r : MappingReference) : Run Contribution := do
  let origin := Origin.ofSet set
  let (found, value) ← Run.lift (c.readValue r.mapping)
  let file ← Run.lift (readRecord MappingFile.read ("mapping " ++ found.path) value)
  Run.report origin .debug
    ("Loaded mapping " ++ found.path ++ " (" ++ file.name.getD "unnamed" ++ ")")
  if file.messages.isEmpty then
    Run.report origin .warn ("Mapping file '" ++ r.mapping ++ "' doesn't define any messages")
  let messages ← Run.lift (canonicalKeys file.messages)
  return r.contribution file (← c.importUnder origin r.database messages)

/-- Nothing is looked up before a mapping is opened. -/
theorem mapping_eq_bind (settings : Settings) (set : String) (hasBus : String → Bool)
    (r : MappingReference) :
    c.mapping settings set hasBus r = mappingOpened settings set hasBus r >>= fun opened =>
      if opened then c.mappingLoaded set r else return .none := by
  unfold mapping mappingOpened mappingLoaded
  cases r.enabled <;> cases settings.skipDisabledMappings <;> cases r.bus with
  | none => rfl
  | some bus =>
    dsimp only
    cases hasBus bus <;> rfl

theorem mappingLoaded_lookingIn (set : String) (r : MappingReference) :
    Run.Survives (c.mappingLoaded set r) ((c.lookingIn more).mappingLoaded set r) := by
  unfold mappingLoaded
  refine .bind (.lift (c.readValue_lookingIn more r.mapping)) fun ⟨found, value⟩ _ => ?_
  refine .bind_self fun file _ => .bind_self fun _ _ => ?_
  have hrest : Run.Survives
      (Run.lift (canonicalKeys file.messages) >>= fun messages =>
        c.importUnder (.ofSet set) r.database messages >>= fun imported =>
          return r.contribution file imported)
      (Run.lift (canonicalKeys file.messages) >>= fun messages =>
        (c.lookingIn more).importUnder (.ofSet set) r.database messages >>= fun imported =>
          return r.contribution file imported) :=
    .bind_self fun messages _ => .bind (c.importUnder_lookingIn more _ _ _) fun _ _ => .refl _
  exact .ite (.bind_self fun _ _ => hrest) hrest

theorem mapping_lookingIn (settings : Settings) (set : String) (hasBus : String → Bool)
    (r : MappingReference) :
    Run.Survives (c.mapping settings set hasBus r)
      ((c.lookingIn more).mapping settings set hasBus r) := by
  rw [mapping_eq_bind, mapping_eq_bind]
  exact .bind_self fun opened _ => .ite (c.mappingLoaded_lookingIn more set r) (.refl _)

theorem mappings_lookingIn (settings : Settings) (set : String) (hasBus : String → Bool)
    (references : List MappingReference) :
    Run.Survives (c.mappings settings set hasBus references)
      ((c.lookingIn more).mappings settings set hasBus references) :=
  .bind (.mapM (c.mapping_lookingIn more settings set hasBus) references) fun _ _ => .refl _

theorem draft_lookingIn (settings : Settings) (name : String) (file : SetFile) :
    Run.Survives (c.draft settings name file) ((c.lookingIn more).draft settings name file) := by
  unfold draft
  exact .bind_self fun _ _ => .bind (c.mappings_lookingIn more _ _ _ _) fun _ _ => .refl _

theorem assemble_lookingIn (settings : Settings) (name : String) :
    Run.Survives (c.assemble settings name) ((c.lookingIn more).assemble settings name) := by
  unfold assemble
  refine .bind (c.lineageBelow_lookingIn more [] name) fun lineage _ => ?_
  refine .bind_self fun file _ => .bind_self fun _ _ => ?_
  exact .bind (c.draft_lookingIn more _ _ _) fun _ _ => .refl _

theorem superset_lookingIn (settings : Settings) (name : String) :
    Run.Survives (c.superset settings name) ((c.lookingIn more).superset settings name) := by
  unfold superset
  refine .bind (.lift (c.readValue_lookingIn more name)) fun ⟨found, value⟩ _ => ?_
  refine .bind_self fun file _ => ?_
  have hsets := Run.Survives.mapM (c.assemble_lookingIn more settings) file.messageSets
  exact .ite (.bind_self fun _ _ => .bind_self fun _ _ => hsets) (.bind_self fun _ _ => hsets)

/-! ## Sources -/

theorem generate_lookingIn (settings : Settings) (sets : List MessageSet) :
    Run.Survives (c.generate settings sets) ((c.lookingIn more).generate settings sets) := by
  unfold generate
  refine .bind_self fun tables _ => .bind (.lift ?_) fun _ _ => .refl _
  exact .mapM (c.readText_lookingIn more) _

theorem generateChecked_lookingIn (settings : Settings) (sets : List MessageSet) :
    Run.Survives (c.generateChecked settings sets)
      ((c.lookingIn more).generateChecked settings sets) :=
  .bind_self fun _ _ => c.generate_lookingIn more settings sets

/-- A compilation that succeeds is the same compilation, with the same source, the same tally and
the same journal, when more directories are looked in after all others. -/
theorem compile_lookingIn (c : Catalog) (more : List String) (settings : Settings) :
    (∀ names g, (c.compile settings names).outcome = .ok g →
      (c.lookingIn more).compile settings names = c.compile settings names) ∧
    ∀ name g, (c.compileSuperset settings name).outcome = .ok g →
      (c.lookingIn more).compileSuperset settings name = c.compileSuperset settings name := by
  constructor
  · intro names
    have hsets := Run.Survives.mapM (c.assemble_lookingIn more settings) names
    exact hsets.bind fun sets _ => c.generateChecked_lookingIn more settings sets
  · intro name
    have hsets := c.superset_lookingIn more settings name
    exact hsets.bind fun sets _ => c.generateChecked_lookingIn more settings sets

/-- Two directories with files of the same names, of which only the first is looked in. -/
def twoDirectories : Catalog where
  store := ⟨[(["near"], .directory), (["far"], .directory),
    (["near", "base.json"], .file (.text (objectText
      [("buses", objectText [("hs", objectText [("speed", "500000")])])]))),
    (["near", "set.json"], .file (.text (objectText
      [("parents", "[\"base.json\"]"), ("extra_sources", "[\"extra.txt\"]"),
        ("mappings", "[" ++ objectText [("mapping", "\"body.json\""), ("bus", "\"hs\"")] ++ "]")]))),
    (["near", "body.json"], .file (.text (objectText
      [("messages", objectText [("0x10", objectText [("name", "\"near\"")])])]))),
    (["near", "extra.txt"], .file (.text "near")),
    (["near", "all.json"], .file (.text (objectText [("message_sets", "[\"set.json\"]")]))),
    (["far", "base.json"], .file (.text (objectText [("parents", "[\"set.json\"]")]))),
    (["far", "body.json"], .file (.text (objectText
      [("messages", objectText [("0x10", objectText [("name", "\"far\"")])])]))),
    (["far", "extra.txt"], .file .binary)], []⟩
  directories := ["near"]

theorem compile_lookingIn_twoDirectories :
    (∃ g, (twoDirectories.compile .usual ["set.json"]).outcome = .ok g ∧
      ((twoDirectories.lookingIn ["far"]).compile .usual ["set.json"]).outcome = .ok g) ∧
    ∃ g, (twoDirectories.compileSuperset .usual "all.json").outcome = .ok g ∧
      ((twoDirectories.lookingIn ["far"]).compileSuperset .usual "all.json").outcome = .ok g := by
  have hset : (twoDirectories.compile .usual ["set.json"]).outcome.toOption.any
      (fun g => g.tally = .zero) = true := by
    decide +kernel
  have hsuperset : (twoDirectories.compileSuperset .usual "all.json").outcome.toOption.any
      (fun g => g.tally = .zero) = true := by
    decide +kernel
  obtain ⟨g, hg, -⟩ := Except.exists_of_any_toOption hset
  obtain ⟨g', hg', -⟩ := Except.exists_of_any_toOption hsuperset
  obtain ⟨hcompile, hcompileSuperset⟩ := compile_lookingIn twoDirectories ["far"] .usual
  refine ⟨⟨g, hg, ?_⟩, g', hg', ?_⟩
  · rw [hcompile _ g hg, hg]
  · rw [hcompileSuperset _ g' hg', hg']

end Catalog

end CanTables
