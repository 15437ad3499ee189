import CanTables.Proofs.Emit.Anonymous
import CanTables.Proofs.Emit.Records
import CanTables.Proofs.Numeric.Fixed

/-!
# CanTables.Proofs.Emit.Factors — the written factors of signals

The factor of a signal is a fragment of its row in the firmware's signal table, and an entry of its
record in the other language.  Both are read back here from the lines of the table: `factor?` passes
over the four fragments in front, the second of which is a quoted text and may hold commas, and
`textOf?` looks for an entry with a key between the line that begins a record and the line that takes
it into the table.

`factor?_signalLine`, `textOf?_factor`: what is read is what `Floating.fixed` made of the factor.
-/

namespace CanTables.Emit

open Line Numeric Text

namespace Firmware

/-! ## Rows of the signal table -/

/-- The literal of the factor in a row of the signal table: the fifth fragment of the row. -/
def factor? (l : Line) : Option (List Char) := do
  let rest ← after? "        \x7b&CAN_MESSAGES[" l.code.toList
  let (_, rest) ← natural? rest
  let rest ← after? "][" rest
  let (_, rest) ← natural? rest
  let rest ← after? "], " rest
  let (_, rest) ← Literal.read rest
  let rest ← after? ", " rest
  let (_, rest) ← natural? rest
  let rest ← after? ", " rest
  let (_, rest) ← natural? rest
  let rest ← after? ", " rest
  return rest.takeWhile (· != ',')

theorem code_signalLine (t : SetTables) (row : SignalRow) : ∃ rest, (signalLine t row).code =
    "        \x7b&CAN_MESSAGES[" ++ (number t.index ++ ("][" ++ (number row.messageIndex ++ ("], " ++
      (Literal.quote row.signal.genericName ++ (", " ++ (number row.bitPosition.toNat ++ (", " ++
        (number row.bitSize.toNat ++ (", " ++ (row.signal.factor.fixed ++
          (", " ++ rest)))))))))))) := by
  have hstart : "        \x7b&CAN_MESSAGES[" =
      "        " ++ ("\x7b" ++ ("&" ++ ("CAN_MESSAGES" ++ "["))) := by decide
  have hclose : "], " = "]" ++ ", " := by decide
  rw [signalLine_eq, noted, signalStart, element, signalRest]
  simp only [List.cons_append, List.nil_append, commas_cons_cons, hstart, hclose,
    String.append_assoc]
  exact ⟨_, rfl⟩

/-- The literal in a row is what is written of the factor. -/
theorem factor?_signalLine (t : SetTables) (row : SignalRow) :
    factor? (signalLine t row) = some row.signal.factor.fixed.toList := by
  have hcomma : stopsNumber ", " = true := rfl
  have hbetween : stopsNumber "][" = true := rfl
  have hclose : stopsNumber "], " = true := rfl
  obtain ⟨rest, hcode⟩ := code_signalLine t row
  have hliteral : (row.signal.factor.fixed.toList ++ (", " ++ rest).toList).takeWhile (· != ',') =
      row.signal.factor.fixed.toList := by
    rw [List.takeWhile_append_of_pos fun c hc =>
      bne_iff_ne.mpr (Floating.ne_comma_of_mem_fixed hc), String.toList_append]
    exact List.append_nil _
  simp only [factor?, hcode, String.toList_append, after?_append, number, natural?_decimal hbetween,
    natural?_decimal hclose, natural?_decimal hcomma, Literal.read_quote, Option.bind_eq_bind,
    Option.bind_some, Option.pure_def]
  rw [← String.toList_append, hliteral]

end Firmware

namespace Script

/-! ## Records of signals -/

/-- A line begins the record of a signal. -/
def beginsRecord (l : Line) : Bool := l.code == "signal = {}"

/-- A line takes the record of a signal into the table. -/
def endsRecord (l : Line) : Bool := l.code == "SIGNALS.append(signal)"

/-- The entries of the first record, of the second, and so on. -/
def signalRecords (lines : List Line) : List (List Line) :=
  (sections beginsRecord endsRecord lines).map Prod.snd

/-- How a line begins that sets the entry of a signal with a key. -/
def entryStart (key : String) : String := "signal" ++ "['" ++ key ++ "'] = "

/-- The texts of the entries with a key, in the order in which they are set. -/
def entriesWith (key : String) (entries : List Line) : List (List Char) :=
  entries.filterMap fun l => after? (entryStart key) l.code.toList

/-- The text of the entry with a key in a record; an entry that is set again replaces the first. -/
def textOf? (key : String) (entries : List Line) : Option (List Char) :=
  (entriesWith key entries).getLast?

theorem entryLine_not_mark (entry : String × String) :
    beginsRecord (entryLine entry) = false ∧ endsRecord (entryLine entry) = false := by
  have hcode : (entryLine entry).code = "signal['" ++ (entry.1 ++ ("'] = " ++ entry.2)) := by
    have hstart : "signal['" = "signal" ++ "['" := by decide
    rw [entryLine, bare, hstart]
    simp only [String.append_assoc]
  have happart : apartFrom ["signal = {}", "SIGNALS.append(signal)"] "signal['" = true := by
    decide
  have hnot := not_begins_of_apartFrom happart (entry.1 ++ ("'] = " ++ entry.2))
  rw [← hcode] at hnot
  rw [beginsRecord, endsRecord, beq_eq_false_iff_ne, beq_eq_false_iff_ne]
  constructor
  · intro heq
    exact hnot _ List.mem_cons_self (heq ▸ List.prefix_refl _)
  · intro heq
    exact hnot _ (List.mem_cons_of_mem _ List.mem_cons_self) (heq ▸ List.prefix_refl _)

theorem sections_record (entries : List (String × String)) (rest : List Line) :
    sections beginsRecord endsRecord (record "signal" "SIGNALS" entries ++ rest) =
      (bare "signal = {}", entries.map entryLine) ::
        sections beginsRecord endsRecord rest := by
  have hrecord : record "signal" "SIGNALS" entries ++ rest = bare "signal = {}" ::
      (entries.map entryLine ++ append "SIGNALS" "signal" :: ([blank] ++ rest)) := by
    rw [record]
    simp only [List.append_assoc]
    rfl
  have hblank : ∀ l ∈ [blank], beginsRecord l = false := by decide
  rw [hrecord, sections_section (by decide)
    (List.forall_mem_map.mpr fun entry _ => entryLine_not_mark entry) (by decide),
    sections_append hblank]

/-- The records of every set are read back, one behind the other. -/
theorem signalRecords_signals (tables : Tables) : signalRecords (signals tables) =
    tables.sets.flatMap fun t => t.signals.map fun row => (signalEntries t row).map entryLine := by
  have hset : ∀ (t : SetTables) (rest : List Line), sections beginsRecord endsRecord
      ((noted "" (setNote t) :: t.signals.flatMap fun row =>
        record "signal" "SIGNALS" (signalEntries t row)) ++ rest) =
          t.signals.flatMap (fun row =>
            [(bare "signal = {}", (signalEntries t row).map entryLine)]) ++
              sections beginsRecord endsRecord rest := by
    intro t rest
    have hnote : ∀ l ∈ [noted "" (setNote t)], beginsRecord l = false :=
      List.forall_mem_singleton.mpr rfl
    exact (sections_append hnote _).trans
      (sections_flatMap_of_append (fun row => sections_record (signalEntries t row)) t.signals rest)
  have hstart : ∀ l ∈ [emptyList "SIGNALS"], beginsRecord l = false := by decide
  have hfinish : sections beginsRecord endsRecord [blank] = [] := by decide
  have hsections : sections beginsRecord endsRecord (signals tables) =
      tables.sets.flatMap fun t => t.signals.flatMap fun row =>
        [(bare "signal = {}", (signalEntries t row).map entryLine)] := by
    rw [← List.append_nil (tables.sets.flatMap _), ← hfinish]
    exact (sections_append hstart _).trans (sections_flatMap_of_append hset tables.sets [blank])
  rw [signalRecords, hsections, List.map_flatMap]
  refine List.flatMap_congr fun t _ => ?_
  rw [List.map_flatMap, List.map_eq_flatMap]
  rfl

theorem entriesWith_append (key : String) (entries entries' : List Line) :
    entriesWith key (entries ++ entries') = entriesWith key entries ++ entriesWith key entries' :=
  List.filterMap_append ..

/-- Entries with other keys are not read. -/
theorem entriesWith_eq_nil {key : String} {entries : List (String × String)} (keys : List String)
    (hkeys : ∀ entry ∈ entries, entry.1 ∈ keys)
    (h : ∀ other ∈ keys, apartFrom [entryStart key] (entryStart other) = true) :
    entriesWith key (entries.map entryLine) = [] := by
  rw [entriesWith, List.filterMap_eq_nil_iff]
  exact List.forall_mem_map.mpr fun entry hentry =>
    after?_of_apartFrom (h _ (hkeys entry hentry)) entry.2

theorem entriesWith_entryLine (key value : String) :
    entriesWith key [entryLine (key, value)] = [value.toList] := by
  have hread : after? (entryStart key) (entryLine (key, value)).code.toList = some value.toList := by
    show after? (entryStart key) (entryStart key ++ value).toList = _
    rw [String.toList_append, after?_append]
  simp only [entriesWith, List.filterMap_cons, hread, List.filterMap_nil]

/-- The entry of the factor in a record is what is written of the factor. -/
theorem textOf?_factor (t : SetTables) (row : SignalRow) :
    textOf? "factor" ((signalEntries t row).map entryLine) =
      some row.signal.factor.fixed.toList := by
  have hsplit : (signalEntries t row).map entryLine = ((signalEntries t row).take 5).map entryLine ++
      ([entryLine ("factor", row.signal.factor.fixed)] ++
        ((signalEntries t row).drop 6).map entryLine) := rfl
  have hbefore : entriesWith "factor" (((signalEntries t row).take 5).map entryLine) = [] := by
    refine entriesWith_eq_nil ["message_set_index", "message_index", "generic_name",
      "bit_position", "bit_size"] ?_ (by decide)
    simp [signalEntries, setEntry]
  have hafter : entriesWith "factor" (((signalEntries t row).drop 6).map entryLine) = [] := by
    refine entriesWith_eq_nil ["offset", "min_value", "max_value", "max_frequency", "send_same",
      "force_send_changed", "states_index", "state_count", "writable", "decoder", "encoder",
      "name"] ?_ (by decide)
    cases hstates : row.states <;> simp [signalEntries, stateEntries, hstates]
  rw [textOf?, hsplit, entriesWith_append, entriesWith_append, hbefore, hafter,
    entriesWith_entryLine]
  rfl

end Script

end CanTables.Emit
