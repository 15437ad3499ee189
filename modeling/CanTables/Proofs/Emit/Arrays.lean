import CanTables.Emit.Firmware
import CanTables.Proofs.Emit.Sections
import CanTables.Proofs.Text.Reading

/-!
# CanTables.Proofs.Emit.Arrays — the arrays read back

In the firmware a table is an array with one group of rows for each message set.  `rowGroups` reads
the groups back from the lines of an array (`rowGroups_array`), so a group is found at the position
of its set.

A row of the bus table is known by how it begins, and the second number in it is the address of the
controller: `controllersOf` reads them back (`controllersOf_busLines`).
-/

namespace CanTables.Emit.Firmware

open Line Text

/-! ## Groups of rows -/

/-- A line opens the rows of a set. -/
def opensRows (l : Line) : Bool := l.code == "    \x7b"

/-- A line closes the rows of a set. -/
def closesRows (l : Line) : Bool := l.code == "    \x7d,"

/-- The rows of the first set, of the second, and so on. -/
def rowGroups (lines : List Line) : List (List Line) :=
  (sections opensRows closesRows lines).map Prod.snd

/-- A line is indented as far as the rows of a set. -/
def IsRow (l : Line) : Prop := ∃ rest, l.code = "        " ++ rest

theorem IsRow.not_mark {l : Line} (h : IsRow l) : opensRows l = false ∧ closesRows l = false := by
  obtain ⟨rest, hcode⟩ := h
  -- The marks have fewer blanks: their fifth character is a bracket.
  have hfifth : l.code.toList[4]? = some ' ' := by
    rw [hcode, String.toList_append]
    rfl
  rw [opensRows, closesRows, beq_eq_false_iff_ne, beq_eq_false_iff_ne]
  constructor
  · intro heq
    rw [heq] at hfifth
    exact absurd hfifth (by decide)
  · intro heq
    rw [heq] at hfifth
    exact absurd hfifth (by decide)

/-- The rows of every set are read back from the lines of an array. -/
theorem rowGroups_array {declaration : String} {rows : SetTables → List Line} (before : List Line)
    (hbefore : ∀ l ∈ before, opensRows l = false)
    (hdeclaration : opensRows (bare (declaration ++ " = \x7b")) = false)
    (hrows : ∀ t, ∀ l ∈ rows t, IsRow l) (tables : Tables) :
    rowGroups (before ++ array declaration tables rows) = tables.sets.map rows := by
  have harray : array declaration tables rows = [bare (declaration ++ " = \x7b")] ++
      tables.sets.flatMap (fun t =>
        noted "    \x7b" (setNote t) :: (rows t ++ [bare "    \x7d,"])) ++
      [bare "\x7d;", blank] := by
    simp only [array, List.append_assoc]
    rfl
  rw [rowGroups, sections_append hbefore, harray, sections_flatMap (fun _ => rfl)
    (fun t l hl => (hrows t l hl).not_mark) ⟨rfl, rfl⟩
    (List.forall_mem_singleton.mpr hdeclaration) (by decide), List.map_map]
  rfl

/-! ## Rows of the bus table -/

/-- The controller of a bus, if a line begins a row of the bus table. -/
def controllerOf? (l : Line) : Option Nat := do
  let rest ← after? "        \x7b " l.code.toList
  let (_, rest) ← natural? rest
  let rest ← after? ", " rest
  let (controller, _) ← natural? rest
  return controller

/-- The controllers in the rows of the bus table, row by row. -/
def controllersOf (rows : List Line) : List Nat := rows.filterMap controllerOf?

theorem commas_cons_cons (a b : String) (rest : List String) :
    commas (a :: b :: rest) = a ++ (", " ++ commas (b :: rest)) := by
  rw [commas, String.intercalate_cons_cons, String.append_assoc]
  rfl

/-- The first line of a row of the bus table. -/
def busStart (row : BusRow) : Line :=
  bare ("        \x7b " ++ commas
    [number row.bus.speed.toNat, number row.controller.toNat, "can" ++ number row.controller.toNat,
      row.bus.maxMessageFrequency.fixed, rawMode row.bus.rawMode, truth row.bus.rawWritable,
      truth row.bus.loopback] ++ ",")

/-- The other lines of a row of the bus table. -/
def busRest (row : BusRow) : List Line :=
  [bare "            #ifdef __PIC32__",
    bare ("            handleCan" ++ number row.controller.toNat ++ "Interrupt,"),
    noted "            #endif" "__PIC32__",
    bare "        \x7d,"]

theorem busLines_eq (row : BusRow) : busLines row = busStart row :: busRest row := rfl

theorem code_busStart (row : BusRow) : ∃ rest, (busStart row).code = "        \x7b " ++
    (number row.bus.speed.toNat ++ (", " ++ (number row.controller.toNat ++ (", " ++ rest)))) := by
  rw [busStart, bare, commas_cons_cons, commas_cons_cons]
  simp only [String.append_assoc]
  exact ⟨_, rfl⟩

theorem controllerOf?_busStart (row : BusRow) :
    controllerOf? (busStart row) = some row.controller.toNat := by
  obtain ⟨rest, hcode⟩ := code_busStart row
  have hcomma : stopsNumber ", " = true := rfl
  simp only [controllerOf?, hcode, String.toList_append, after?_append, number,
    natural?_decimal hcomma, Option.bind_eq_bind, Option.bind_some, Option.pure_def]

/-- Only the first line of a row has its bracket behind eight blanks. -/
theorem controllerOf?_eq_none {l : Line} (h : l.code.toList[8]? ≠ some '\x7b') :
    controllerOf? l = none := by
  cases hafter : after? "        \x7b " l.code.toList with
  | none =>
    rw [controllerOf?, hafter]
    rfl
  | some rest =>
    rw [← List.isPrefixOf?_eq_some_iff_append_eq.mp hafter] at h
    exact absurd rfl h

/-- A row of the bus table is read once. -/
theorem controllersOf_busLines (row : BusRow) :
    controllersOf (busLines row) = [row.controller.toNat] := by
  have hhandler : (bare ("            handleCan" ++ number row.controller.toNat ++
      "Interrupt,")).code.toList[8]? = some ' ' := by
    rw [bare, String.append_assoc, String.toList_append]
    rfl
  have hrest : ∀ l ∈ busRest row, controllerOf? l = none := by
    simp only [busRest, List.forall_mem_cons]
    refine ⟨controllerOf?_eq_none (by decide), controllerOf?_eq_none ?_,
      controllerOf?_eq_none (by decide), controllerOf?_eq_none (by decide),
      fun l hl => absurd hl List.not_mem_nil⟩
    rw [hhandler]
    decide
  rw [busLines_eq, controllersOf, List.filterMap_cons_some (controllerOf?_busStart row),
    List.filterMap_eq_nil_iff.mpr hrest]

theorem isRow_busLines (row : BusRow) : ∀ l ∈ busLines row, IsRow l := by
  obtain ⟨rest, hcode⟩ := code_busStart row
  rw [busLines_eq, busRest]
  simp only [List.forall_mem_cons]
  refine ⟨⟨"\x7b " ++ _, hcode⟩, ⟨"    #ifdef __PIC32__", rfl⟩,
    ⟨"    handleCan" ++ _, String.append_assoc⟩, ⟨"    #endif", rfl⟩, ⟨"\x7d,", rfl⟩, ?_⟩
  exact fun l hl => absurd hl List.not_mem_nil

/-- The bus table of every set is read back. -/
theorem rowGroups_buses (tables : Tables) :
    rowGroups (buses tables) = tables.sets.map fun t => t.buses.flatMap busLines :=
  rowGroups_array [constant "MAX_CAN_BUS_COUNT" maxBusCount] (by decide) (by decide)
    (fun _ => List.forall_mem_flatMap.mpr fun row _ => isRow_busLines row) tables

/-- The bus table of a set has one row for each bus, with its controller. -/
theorem controllersOf_rows (rows : List BusRow) :
    controllersOf (rows.flatMap busLines) = rows.map fun row => row.controller.toNat := by
  rw [controllersOf, List.filterMap_flatMap, List.map_eq_flatMap]
  exact List.flatMap_congr fun row _ => controllersOf_busLines row

end CanTables.Emit.Firmware
