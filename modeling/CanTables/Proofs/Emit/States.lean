import CanTables.Proofs.Emit.Arrays
import CanTables.Proofs.Text.Literal

/-!
# CanTables.Proofs.Emit.States — written states read back

Both languages write a state as its value and its quoted name, with fixed texts around them, so one
reader serves both.  In the firmware the states of one signal are a cell of the state table, and a
signal refers to a cell by two positions and says how many states to read: `cell?` does that
(`cell?_signalStates`).
-/

namespace CanTables.Emit

open Line Text

/-! ## One state -/

/-- A state that is written between fixed texts. -/
def stateText (before between finish : String) (state : SignalState) : String :=
  before ++ (Digits.decimal state.value ++ (between ++ (Literal.quote state.name ++ finish)))

/-- The state at the front of a text, and what follows it. -/
def state? (before between finish : String) (cs : List Char) :
    Option (SignalState × List Char) := do
  let rest ← after? before cs
  let (value, rest) ← integer? rest
  let rest ← after? between rest
  let (name, rest) ← Literal.read rest
  let rest ← after? finish rest
  return (⟨value, String.ofList name⟩, rest)

theorem state?_stateText {before between finish : String} (h : stopsNumber between = true)
    (state : SignalState) (rest : List Char) :
    state? before between finish ((stateText before between finish state).toList ++ rest) =
      some (state, rest) := by
  simp only [state?, stateText, String.toList_append, List.append_assoc, after?_append,
    integer?_decimal h, Literal.read_quote, Option.bind_eq_bind, Option.bind_some,
    Option.pure_def, String.ofList_toList]

namespace Firmware

/-! ## Cells of the state table -/

/-- Some states at the front of a text, and what follows them. -/
def states? : Nat → List Char → Option (List SignalState × List Char)
  | 0, cs => some ([], cs)
  | count + 1, cs => do
    let (state, rest) ← state? "\x7b" ", " "\x7d, " cs
    let (states, rest) ← states? count rest
    return (state :: states, rest)

/-- The states in a row of the state table that has a number of them. -/
def rowStates? (count : Nat) (l : Line) : Option (List SignalState) := do
  let rest ← after? "        \x7b " l.code.toList
  let (states, rest) ← states? count rest
  if rest = "\x7d,".toList then return states else none

/-- The states that lines of the state tables hold for a set at a position. -/
def cell? (lines : List Line) (set index count : Nat) : Option (List SignalState) :=
  ((rowGroups lines)[set]?.bind fun rows => rows[index]?).bind (rowStates? count)

theorem states?_written (states : List SignalState) (rest : List Char) :
    states? states.length
        ((String.join (states.map (stateText "\x7b" ", " "\x7d, "))).toList ++ rest) =
      some (states, rest) := by
  have hcomma : stopsNumber ", " = true := rfl
  induction states with
  | nil => rfl
  | cons state states ih =>
    simp only [List.length_cons, states?, List.map_cons, String.join_cons, String.toList_append,
      List.append_assoc, state?_stateText hcomma, ih, Option.bind_eq_bind, Option.bind_some,
      Option.pure_def]

theorem group_pair (a b : String) :
    group [a, b] ++ ", " = "\x7b" ++ (a ++ (", " ++ (b ++ "\x7d, "))) := by
  have hone : commas [b] = b := String.intercalate_singleton
  have hclose : "\x7d" ++ ", " = "\x7d, " := rfl
  simp only [group, commas_cons_cons, hone, String.append_assoc, hclose]

theorem code_stateLine (states : List SignalState) : (stateLine states).code =
    "        \x7b " ++ (String.join (states.map (stateText "\x7b" ", " "\x7d, ")) ++ "\x7d,") := by
  have hstates : (fun state : SignalState =>
      group [Digits.decimal state.value, Literal.quote state.name] ++ ", ") =
        stateText "\x7b" ", " "\x7d, " := funext fun _ => group_pair _ _
  rw [stateLine, hstates]
  exact String.append_assoc

/-- A row of the state table holds the states that were written. -/
theorem rowStates?_stateLine (states : List SignalState) :
    rowStates? states.length (stateLine states) = some states := by
  simp only [rowStates?, code_stateLine, String.toList_append, after?_append, states?_written,
    Option.bind_eq_bind, Option.bind_some]
  rfl

theorem opensRows_constant (name : String) (value : Nat) :
    opensRows (constant name value) = false := by
  rw [opensRows, constant, bare, beq_eq_false_iff_ne]
  intro heq
  have hfirst := congrArg (List.head? ∘ String.toList) heq
  simp only [Function.comp_apply, String.toList_append, List.append_assoc] at hfirst
  exact absurd hfirst (by simp)

/-- The state table of every set is read back. -/
theorem rowGroups_signalStates (tables : Tables) :
    rowGroups (signalStates tables) = tables.sets.map fun t => t.stateTable.map stateLine := by
  have hrow : ∀ states, IsRow (stateLine states) := by
    intro states
    refine ⟨"\x7b " ++ (String.join (states.map (stateText "\x7b" ", " "\x7d, ")) ++ "\x7d,"), ?_⟩
    rw [code_stateLine, ← String.append_assoc]
    rfl
  refine rowGroups_array [constant "MAX_SIGNAL_STATES" maxSignalStates,
    constant "MAX_SIGNAL_COUNT" tables.maxSignalCount] ?_ (by decide) ?_ tables
  · exact List.forall_mem_cons.mpr
      ⟨opensRows_constant _ _, List.forall_mem_singleton.mpr (opensRows_constant _ _)⟩
  · exact fun t => List.forall_mem_map.mpr fun states _ => hrow states

/-- The cell of a set at a position holds the states at this position of the set's state table. -/
theorem cell?_signalStates {tables : Tables} {i j : Nat} {t : SetTables}
    (ht : tables.sets[i]? = some t) {states : List SignalState}
    (hstates : t.stateTable[j]? = some states) :
    cell? (signalStates tables) i j states.length = some states := by
  rw [cell?, rowGroups_signalStates, List.getElem?_map, ht, Option.map_some, Option.bind_some,
    List.getElem?_map, hstates, Option.map_some, Option.bind_some, rowStates?_stateLine]

/-! ## References to cells -/

/-- A row of the signal table refers to the cell of a set at an index, and to so many states. -/
def RefersTo (l : Line) (set index count : Nat) : Prop :=
  ∃ front back,
    l.code = front ++ (commas [element "SIGNAL_STATES" set index, number count] ++ back)

theorem commas_append {before after : List String} (hbefore : before ≠ []) (hafter : after ≠ []) :
    commas (before ++ after) = commas before ++ (", " ++ commas after) := by
  rw [commas, String.intercalate_append_of_ne_nil hbefore hafter, String.append_assoc]
  rfl

/-- Fragments in the middle of a group. -/
theorem group_append {before middle after : List String} (hbefore : before ≠ [])
    (hmiddle : middle ≠ []) (hafter : after ≠ []) : ∃ front back,
    group (before ++ middle ++ after) = front ++ (commas middle ++ back) := by
  refine ⟨"\x7b" ++ (commas before ++ ", "), ", " ++ (commas after ++ "\x7d"), ?_⟩
  rw [group, commas_append (List.append_ne_nil_of_left_ne_nil hbefore _) hafter,
    commas_append hbefore hmiddle]
  simp only [String.append_assoc]

theorem signalLine_refersTo (t : SetTables) {row : SignalRow} {block : StateBlock}
    (h : row.states = some block) :
    RefersTo (signalLine t row) t.index block.index block.states.length := by
  have hne : stateReference t row.states ≠ [] := by simp [stateReference, h]
  obtain ⟨front, back, hgroup⟩ :=
    group_append (List.cons_ne_nil _ _) hne (List.cons_ne_nil _ _)
  refine ⟨"        " ++ front, back ++ ",", ?_⟩
  rw [signalLine, noted, hgroup]
  simp only [h, stateReference, String.append_assoc]

/-- The signal table of every set is read back. -/
theorem rowGroups_signals (tables : Tables) :
    rowGroups (signals tables) = tables.sets.map fun t => t.signals.map (signalLine t) := by
  have hrow : ∀ t row, IsRow (signalLine t row) := fun _ _ => ⟨_, String.append_assoc⟩
  exact rowGroups_array [] (by simp) (by decide)
    (fun t => List.forall_mem_map.mpr fun row _ => hrow t row) tables

end Firmware

end CanTables.Emit
