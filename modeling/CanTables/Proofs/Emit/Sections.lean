import CanTables.Emit.Line
import Mathlib.Data.List.Basic

/-!
# CanTables.Proofs.Emit.Sections — marked sections of emitted lines

Parts of an emitted source stand between two marks: the cases of a branch between a label and a
`break`, the rows of one set in an array between its braces.  `sections` reads such parts back.

`sections_flatMap`: sections that were emitted one after the other are read back one after the
other, provided that nothing in them looks like a mark.
-/

namespace CanTables.Emit

/-- The sections between lines that open one and lines that close one: the opening line, and the
lines up to the next closing one. -/
def sections (opens closes : Line → Bool) : List Line → List (Line × List Line)
  | [] => []
  | l :: rest =>
    if opens l then
      (l, rest.takeWhile fun inner => !closes inner) :: sections opens closes rest
    else sections opens closes rest

variable {opens closes : Line → Bool}

theorem sections_append {before : List Line} (h : ∀ l ∈ before, opens l = false)
    (rest : List Line) : sections opens closes (before ++ rest) = sections opens closes rest := by
  induction before with
  | nil => rfl
  | cons l before ih =>
    obtain ⟨hl, hbefore⟩ := List.forall_mem_cons.mp h
    rw [List.cons_append, sections, if_neg (Bool.eq_false_iff.mp hl), ih hbefore]

/-- A section that was emitted is read back. -/
theorem sections_section {start finish : Line} {body : List Line} (hstart : opens start = true)
    (hbody : ∀ l ∈ body, opens l = false ∧ closes l = false)
    (hfinish : opens finish = false ∧ closes finish = true) (rest : List Line) :
    sections opens closes (start :: (body ++ finish :: rest)) =
      (start, body) :: sections opens closes rest := by
  have htake : (body ++ finish :: rest).takeWhile (fun inner => !closes inner) = body := by
    rw [List.takeWhile_append_of_pos fun l hl => by rw [(hbody l hl).2]; rfl,
      List.takeWhile_cons_of_neg (by simp [hfinish.2]), List.append_nil]
  have hskip : ∀ l ∈ body ++ [finish], opens l = false :=
    List.forall_mem_append.mpr
      ⟨fun l hl => (hbody l hl).1, List.forall_mem_singleton.mpr hfinish.1⟩
  rw [sections, if_pos hstart, htake, List.append_cons, sections_append hskip]

/-- Sections that were emitted one after the other are read back one after the other. -/
theorem sections_flatMap {α : Type} {xs : List α} {start : α → Line} {body : α → List Line}
    {finish : Line} (hstart : ∀ x, opens (start x) = true)
    (hbody : ∀ x, ∀ l ∈ body x, opens l = false ∧ closes l = false)
    (hfinish : opens finish = false ∧ closes finish = true)
    {before after : List Line} (hbefore : ∀ l ∈ before, opens l = false)
    (hafter : ∀ l ∈ after, opens l = false) :
    sections opens closes
        (before ++ xs.flatMap (fun x => start x :: (body x ++ [finish])) ++ after) =
      xs.map fun x => (start x, body x) := by
  rw [List.append_assoc, sections_append hbefore]
  induction xs with
  | nil =>
    rw [List.flatMap_nil, List.nil_append, ← List.append_nil after, sections_append hafter]
    rfl
  | cons x rest ih =>
    rw [List.flatMap_cons, List.cons_append, List.cons_append, List.append_assoc, List.append_assoc,
      List.singleton_append, sections_section (hstart x) (hbody x) hfinish, ih, List.map_cons]

/-- Parts that are read back whatever follows them are read back one after the other. -/
theorem sections_flatMap_of_append {α : Type} {part : α → List Line}
    {read : α → List (Line × List Line)}
    (h : ∀ x rest, sections opens closes (part x ++ rest) = read x ++ sections opens closes rest)
    (xs : List α) (rest : List Line) :
    sections opens closes (xs.flatMap part ++ rest) =
      xs.flatMap read ++ sections opens closes rest := by
  induction xs with
  | nil => rfl
  | cons x xs ih =>
    rw [List.flatMap_cons, List.flatMap_cons, List.append_assoc, h, ih, List.append_assoc]

end CanTables.Emit
