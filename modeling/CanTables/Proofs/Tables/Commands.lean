import CanTables.Proofs.Assembly.Commands
import CanTables.Proofs.Order.Ranks
import CanTables.Proofs.Tables.Agree

/-!
# CanTables.Proofs.Tables.Commands — the layers of a set in its command table

The command table has a row for every enabled command of every layer, in the order of the names and,
under one name, in the order of the layers.  So a higher layer neither replaces nor disables what a
lower one declares: of two enabled commands with one name both are rows, and whoever looks a name up
finds the lowest (`Catalog.commandRows_of_assemble`).

The rows of a name are what the highest layer says of it exactly if no declaration below the last one
is enabled.  `Catalog.not_forall_followsLast` is a set in which a mapping and a parent keep their rows
under the file of the set.
-/

namespace CanTables

open Sorting

/-! ## Commands of one name -/

/-- The commands that layers declare under a name, lowest layer first. -/
def declared (layers : List (List Command)) (name : String) : List Command :=
  layers.flatten.filter fun command => command.name = name

/-- The rows of a name are what the last declaration of that name says, in the highest layer that has
any: one row if it is enabled there, none otherwise. -/
def FollowsLast (layers : List (List Command)) (rows : List Command) (name : String) : Prop :=
  (rows.filter fun row => row.name = name) =
    ((declared layers name).getLast?.filter Command.enabled).toList

/-- Only the last element of a list passes, if any does, exactly if none in front of it does. -/
theorem filter_eq_last_iff {α : Type} {p : α → Bool} {l : List α} :
    l.filter p = (l.getLast?.filter p).toList ↔ ∀ a ∈ l.dropLast, p a = false := by
  rcases l.eq_nil_or_concat with rfl | ⟨rest, last, rfl⟩
  · simp
  · have hlast : [last].filter p = (Option.filter p (some last)).toList := by
      cases hp : p last <;> simp [Option.filter, hp]
    rw [List.concat_eq_append, List.filter_append, List.getLast?_concat, List.dropLast_concat, hlast,
      List.append_left_eq_self, List.filter_eq_nil_iff]
    simp only [Bool.not_eq_true]

/-! ## Command tables -/

namespace MessageSet

variable {s : MessageSet} {index : Nat} {t : SetTables}

theorem commands_of_tables (h : (s.tables index).outcome = .ok t) :
    t.commands = s.activeCommands := by
  obtain ⟨messages, signals, requests, -, -, -, rfl⟩ := tables_eq_ok h
  rfl

theorem activeCommands_sorted : s.activeCommands.Pairwise fun a b => a.name ≤ b.name :=
  (sortBy_byKey_pairwise Command.name s.commands).filter _

/-- The rows of a name are its enabled commands, in the order in which the set has them. -/
theorem filter_activeCommands (name : String) :
    (s.activeCommands.filter fun row => row.name = name) =
      (s.commands.filter fun command => command.name = name).filter Command.enabled := by
  rw [activeCommands, allCommands, List.filter_comm, filter_sortBy_byKey]

end MessageSet

namespace Catalog

/-- The command table of an assembled set.  Its rows are in the order of the names; those of one name
are the enabled declarations of all layers, lowest first, so that the first of them is the lowest.
They follow the last declaration exactly if none below it is enabled; and there is one row a name
exactly if every name is enabled at most once. -/
theorem commandRows_of_assemble {c : Catalog} {settings : Settings} {name : String} {s : MessageSet}
    (h : (c.assemble settings name).outcome = .ok s) :
    ∃ layers, c.commandLayers settings name = .ok layers ∧
      ∀ index t, (s.tables index).outcome = .ok t →
        (t.commands.Pairwise fun a b => a.name ≤ b.name) ∧
        (∀ key, (t.commands.filter fun row => row.name = key) =
          (declared layers key).filter Command.enabled) ∧
        (∀ key, (t.commands.find? fun row => row.name = key) =
          (declared layers key).find? Command.enabled) ∧
        (∀ key, FollowsLast layers t.commands key ↔
          ∀ below ∈ (declared layers key).dropLast, below.enabled = false) ∧
        ((t.commands.map Command.name).Nodup ↔
          ∀ key, (declared layers key).countP Command.enabled ≤ 1) := by
  obtain ⟨layers, hlayers, hcommands⟩ := commands_of_assemble h
  refine ⟨layers, hlayers, fun index t ht => ?_⟩
  rw [MessageSet.commands_of_tables ht]
  -- Everything else is read off the rows of one name.
  have hrows : ∀ key, (s.activeCommands.filter fun row => row.name = key) =
      (declared layers key).filter Command.enabled := by
    intro key
    rw [MessageSet.filter_activeCommands, hcommands, declared]
  refine ⟨MessageSet.activeCommands_sorted, hrows, fun key => ?_, fun key => ?_, ?_⟩
  · rw [← List.head?_filter, hrows, List.head?_filter]
  · rw [FollowsLast, hrows, filter_eq_last_iff]
  · rw [List.nodup_iff_count_le_one]
    apply forall_congr'
    intro key
    have hcount : (s.activeCommands.map Command.name).count key =
        (declared layers key).countP Command.enabled := by
      rw [List.countP_eq_length_filter, ← hrows, List.count, List.countP_map,
        List.countP_eq_length_filter]
      rfl
    rw [hcount]

/-- The text of a list of objects. -/
def listText (items : List (List (String × String))) : String :=
  "[" ++ ", ".intercalate (items.map objectText) ++ "]"

/-- A set, its parent and its mapping that all declare one command; another one is disabled in the
parent and declared again in the set. -/
def resetting : Catalog := ofFiles [
  ("parent.json", objectText [
    ("commands", listText [[("name", "\"reset\""), ("handler", "\"inherited\"")],
      [("name", "\"version\""), ("enabled", "false")]])]),
  ("mapping.json", objectText [
    ("commands", listText [[("name", "\"reset\""), ("handler", "\"mapped\"")]])]),
  ("set.json", objectText [
    ("parents", "[\"parent.json\"]"),
    ("mappings", listText [[("mapping", "\"mapping.json\"")]]),
    ("commands", listText [[("name", "\"reset\""), ("handler", "\"own\"")],
      [("name", "\"version\""), ("handler", "\"own\"")]])])]

/-- The commands that the layers of the set declare. -/
def resettingLayers : List (List Command) :=
  [[⟨"reset", some "mapped", true⟩],
    [⟨"reset", some "inherited", true⟩, ⟨"version", none, false⟩],
    [⟨"reset", some "own", true⟩, ⟨"version", some "own", true⟩]]

theorem exists_tables_resetting : ∃ s t,
    (resetting.assemble .usual "set.json").outcome = .ok s ∧
      resetting.commandLayers .usual "set.json" = .ok resettingLayers ∧
      (s.tables 0).outcome = .ok t := by
  have hall : (resetting.commandLayers .usual "set.json").toOption.any (fun layers =>
      layers = resettingLayers &&
        (resetting.assemble .usual "set.json").outcome.toOption.any fun s =>
          (s.tables 0).outcome.toOption.any fun _ => true) = true := by
    decide +kernel
  obtain ⟨layers, hlayers, hall⟩ := Except.exists_of_any_toOption hall
  obtain ⟨heq, hset⟩ := Bool.and_eq_true_iff.mp hall
  obtain ⟨s, hs, htables⟩ := Except.exists_of_any_toOption hset
  obtain ⟨t, ht, -⟩ := Except.exists_of_any_toOption htables
  obtain rfl : layers = resettingLayers := of_decide_eq_true heq
  exact ⟨s, t, hs, hlayers, ht⟩

/-- The command of the mapping is found, not that of the file; the other name follows the file. -/
theorem commandRows_of_assemble_resetting : ∃ s t,
    (resetting.assemble .usual "set.json").outcome = .ok s ∧
      resetting.commandLayers .usual "set.json" = .ok resettingLayers ∧
      (s.tables 0).outcome = .ok t ∧
      (t.commands.find? fun row => row.name = "reset") = some ⟨"reset", some "mapped", true⟩ ∧
      (t.commands.filter fun row => row.name = "version") = [⟨"version", some "own", true⟩] ∧
      ¬ FollowsLast resettingLayers t.commands "reset" ∧
      FollowsLast resettingLayers t.commands "version" ∧
      ¬ (t.commands.map Command.name).Nodup := by
  obtain ⟨s, t, hs, hlayers, ht⟩ := exists_tables_resetting
  obtain ⟨layers, hlayers', hrows⟩ := commandRows_of_assemble hs
  obtain rfl : layers = resettingLayers := Except.ok.inj (hlayers'.symm.trans hlayers)
  obtain ⟨-, hfilter, hfind, hfollows, honce⟩ := hrows 0 t ht
  refine ⟨s, t, hs, hlayers, ht, ?_, ?_, ?_, ?_, ?_⟩
  · rw [hfind]
    decide
  · rw [hfilter]
    decide
  · rw [hfollows]
    decide
  · rw [hfollows]
    decide
  · rw [honce]
    intro h
    exact absurd (h "reset") (by decide)

/-- The rows of a name need not be what the highest layer says of it. -/
theorem not_forall_followsLast : ¬ ∀ (c : Catalog) (settings : Settings) (name : String)
    (s : MessageSet) (layers : List (List Command)) (index : Nat) (t : SetTables),
    (c.assemble settings name).outcome = .ok s → c.commandLayers settings name = .ok layers →
      (s.tables index).outcome = .ok t → ∀ key, FollowsLast layers t.commands key := by
  intro hall
  obtain ⟨s, t, hs, hlayers, ht⟩ := exists_tables_resetting
  obtain ⟨layers, hlayers', hcommands⟩ := commands_of_assemble hs
  obtain rfl : layers = resettingLayers := Except.ok.inj (hlayers'.symm.trans hlayers)
  have hfollows := hall _ _ _ s _ 0 t hs hlayers ht "reset"
  rw [FollowsLast, MessageSet.commands_of_tables ht, MessageSet.filter_activeCommands,
    hcommands] at hfollows
  exact absurd hfollows (by decide)

end Catalog

end CanTables
