import CanTables.Proofs.Assembly.Layers
import CanTables.Proofs.Assembly.Lists

/-!
# CanTables.Proofs.Assembly.Commands — the commands that the layers of a set declare

Each layer of a message set declares a list of commands: a mapping the commands of its file, disabled
with it, a message set file and each of its ancestors the items of its own array.
`Catalog.commandLayers` is the list of these lists, lowest layer first: mappings in the order of the
references, ancestors below their descendants, and the file of the set on top.

Nothing is chosen among them.  The commands of an assembled set are those of all layers, one layer
after the other (`Catalog.commands_of_assemble`).  What a file's list is depends on the files around
it only if some file gives something else than a list, or is no object
(`Catalog.commandLayers_of_givesItems`).
-/

namespace CanTables

open Declaration Document Schema

/-! ## Reading commands -/

/-- The commands that items are read as. -/
def commandsOf (items : List Value) : List CommandEntry :=
  items.filterMap fun v => (CommandEntry.read v).toOption

theorem commandsOf_eq_of_mapM {items : List Value} {commands : List CommandEntry}
    (h : items.mapM CommandEntry.read = .ok commands) : commandsOf items = commands := by
  rw [Except.mapM_eq_ok_iff] at h
  unfold commandsOf
  induction h with
  | nil => rfl
  | @cons v command items commands hread _ ih =>
    rw [List.filterMap_cons, hread, ih]
    rfl

/-- A message set file holds the commands that its items are read as. -/
theorem Declaration.SetFile.commands_eq {v : Value} {file : SetFile} (h : SetFile.read v = .ok file) :
    commandsOf (Layer.itemsAt SetAttribute.commands v) = file.commands := by
  obtain ⟨layer, hlayer, rfl⟩ := SetFile.read_eq_ok h
  have known : Layer.attribute? (Record.key SetAttribute.commands) = some SetAttribute.commands :=
    rfl
  obtain ⟨hnone, hsome⟩ := Layer.read_part hlayer known
  rw [Layer.itemsAt]
  cases hpart : Layer.part? SetAttribute.commands v with
  | none =>
    show _ = (layer .commands).getD []
    rw [hnone hpart]
    rfl
  | some w =>
    have hread := hsome w hpart
    cases w with
    | array items =>
      obtain ⟨commands, hcommands, hlayer⟩ := Except.map_eq_ok_iff.mp hread
      show commandsOf items = (layer .commands).getD []
      rw [← hlayer]
      exact commandsOf_eq_of_mapM hcommands
    | _ => cases hread

/-! ## The layers of a set -/

namespace Catalog

variable {c : Catalog} {settings : Settings} {name : String}

/-- The commands of a mapping file, disabled with the mapping. -/
def mappingCommands (c : Catalog) (r : MappingReference) : Except Fault (List CommandEntry) := do
  let (found, value) ← c.readValue r.mapping
  let file ← readRecord MappingFile.read ("mapping " ++ found.path) value
  return file.commands.map r.adoptCommand

/-- The commands that the layers of a message set declare, lowest layer first: the mappings that are
not left out, and then the files of the lineage. -/
def commandLayers (c : Catalog) (settings : Settings) (name : String) :
    Except Fault (List (List Command)) := do
  let lineage ← (c.lineage name).outcome
  let file ← readRecord SetFile.read ("message set " ++ lineage.path) lineage.merged
  let mapped ← (file.mappings.filter fun r => !settings.leavesOut r).mapM c.mappingCommands
  let own := (lineage.itemLists SetAttribute.commands).map commandsOf
  return (mapped ++ own).map fun declared => declared.map resolveCommand

theorem mappingCommands_of_contributionOf {set : String} {r : MappingReference}
    {contribution : Contribution} (h : c.contributionOf set r = .ok contribution) :
    c.mappingCommands r = .ok contribution.commands := by
  obtain ⟨⟨found, value⟩, hread, h⟩ := Except.bind_eq_ok_iff.mp h
  obtain ⟨file, hfile, h⟩ := Except.bind_eq_ok_iff.mp h
  obtain ⟨messages, -, h⟩ := Except.bind_eq_ok_iff.mp h
  obtain ⟨imported, -, h⟩ := Except.bind_eq_ok_iff.mp h
  cases h
  refine Except.bind_eq_ok_iff.mpr ⟨(found, value), hread, ?_⟩
  exact Except.bind_eq_ok_iff.mpr ⟨file, hfile, rfl⟩

/-- The mappings contribute their commands, one mapping after the other. -/
theorem mappingCommands_of_mappings {set : String} {hasBus : String → Bool}
    {references : List MappingReference} {contribution : Contribution}
    (h : (c.mappings settings set hasBus references).outcome = .ok contribution) :
    ∃ mapped, (references.filter fun r => !settings.leavesOut r).mapM c.mappingCommands =
        .ok mapped ∧ contribution.commands = mapped.flatten := by
  obtain ⟨parts, hparts, rfl⟩ := contributions_of_mappings h
  rw [Except.mapM_eq_ok_iff] at hparts
  clear h
  generalize references.filter (fun r => !settings.leavesOut r) = kept at hparts ⊢
  refine ⟨parts.map Contribution.commands, ?_, ?_⟩
  · rw [Except.mapM_eq_ok_iff, List.forall₂_map_right_iff]
    exact hparts.imp fun r part hpart => mappingCommands_of_contributionOf hpart
  · clear hparts
    induction parts with
    | nil => rfl
    | cons part rest ih => exact congrArg (part.commands ++ ·) ih

/-- The commands of an assembled set are those that its layers declare, one layer after the other. -/
theorem commands_of_assemble {s : MessageSet} (h : (c.assemble settings name).outcome = .ok s) :
    ∃ layers, c.commandLayers settings name = .ok layers ∧ s.commands = layers.flatten := by
  obtain ⟨d, ⟨lineage, file, hlineage, hfile, hd⟩, hresolve, -⟩ := exists_hasDraft_of_assemble h
  obtain ⟨requests, -, rfl⟩ := SetDraft.resolve_eq_ok_iff.mp hresolve
  obtain ⟨-, -, hd⟩ := Run.bind_outcome_eq_ok_iff.mp hd
  obtain ⟨contribution, hcontribution, hd⟩ := Run.bind_outcome_eq_ok_iff.mp hd
  obtain ⟨drafts, -, hd⟩ := Run.bind_outcome_eq_ok_iff.mp hd
  cases hd
  obtain ⟨mapped, hmapped, hcommands⟩ := mappingCommands_of_mappings hcontribution
  refine ⟨(mapped ++ (lineage.itemLists SetAttribute.commands).map commandsOf).map fun declared =>
    declared.map resolveCommand, ?_, ?_⟩
  · refine Except.bind_eq_ok_iff.mpr ⟨lineage, hlineage, ?_⟩
    refine Except.bind_eq_ok_iff.mpr ⟨file, hfile, ?_⟩
    exact Except.bind_eq_ok_iff.mpr ⟨mapped, hmapped, rfl⟩
  · have hown : ((lineage.itemLists SetAttribute.commands).map commandsOf).flatten =
        file.commands := by
      unfold commandsOf
      lift lineage to OrderedLineage using lineageBelow_ordered hlineage
      rw [← List.filterMap_flatten, Lineage.itemLists_flatten]
      exact SetFile.commands_eq (readRecord_eq_ok_iff.mp hfile)
    show (contribution.commands ++ file.commands).map resolveCommand = _
    rw [hcommands, ← hown, ← List.flatten_append, ← List.map_flatten]

/-- Where all files of the lineage are objects and give their commands as items, the layers on top of
the mappings are those of the files, each file over its parents. -/
theorem commandLayers_of_givesItems {lineage : Lineage}
    (hlineage : (c.lineage name).outcome = .ok lineage)
    (items : ∀ v ∈ lineage.files, Layer.GivesItems SetAttribute.commands v)
    {layers : List (List Command)} (h : c.commandLayers settings name = .ok layers) :
    ∃ mapped, layers = mapped ++ lineage.files.reverse.map fun v =>
      (commandsOf (Layer.itemsAt SetAttribute.commands v)).map resolveCommand := by
  obtain ⟨lineage', hlineage', h⟩ := Except.bind_eq_ok_iff.mp h
  obtain rfl : lineage = lineage' := Except.ok.inj (hlineage.symm.trans hlineage')
  obtain ⟨file, -, h⟩ := Except.bind_eq_ok_iff.mp h
  obtain ⟨mapped, -, h⟩ := Except.bind_eq_ok_iff.mp h
  cases h
  refine ⟨mapped.map fun commands => commands.map resolveCommand, ?_⟩
  lift lineage to OrderedLineage using lineageBelow_ordered hlineage
  rw [(Lineage.itemLists_of_givesItems items).1, List.map_append, List.map_map, List.map_map]
  rfl

end Catalog

end CanTables
