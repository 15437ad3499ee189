import CanTables.Declaration.File
import CanTables.Proofs.Schema.Layer

/-!
# CanTables.Proofs.Declaration.File — message set files in order

A message set file that is read from a value in order has its buses and its messages in the order of
their keys, each key once.
-/

namespace CanTables.Declaration

open Document Schema

/-- What a message set file holds is what its layer supplies. -/
theorem SetFile.read_eq_ok {v : Value} {file : SetFile} (h : SetFile.read v = .ok file) :
    ∃ layer : Layer SetAttribute, Layer.read v = .ok layer ∧
      file = {
        name := layer .name
        bitNumberingInverted := (layer .bitNumberingInverted).getD true
        buses := (layer .buses).getD []
        mappings := (layer .mappings).getD []
        messages := (layer .messages).getD []
        commands := (layer .commands).getD []
        requests := (layer .requests).getD []
        initializers := (layer .initializers).getD []
        loopers := (layer .loopers).getD []
        extraSources := (layer .extraSources).getD [] } := by
  obtain ⟨layer, hlayer, h⟩ := Except.bind_eq_ok_iff.mp h
  cases h
  exact ⟨layer, hlayer, rfl⟩

theorem SetFile.buses_ordered {v : OrderedValue} {file : SetFile} (h : SetFile.read v = .ok file) :
    file.buses.Ordered := by
  obtain ⟨layer, hlayer, rfl⟩ := SetFile.read_eq_ok h
  cases hbuses : layer .buses with
  | none =>
    exact Keyed.ordered_nil
  | some buses =>
    obtain ⟨w, hread⟩ := Layer.read_ordered hlayer hbuses
    exact Reader.map_ordered hread

end CanTables.Declaration
