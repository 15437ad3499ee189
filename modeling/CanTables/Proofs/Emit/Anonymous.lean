import CanTables.Proofs.Emit.Arrays
import CanTables.Proofs.Emit.Blocks
import CanTables.Proofs.Emit.CodePart

/-!
# CanTables.Proofs.Emit.Anonymous — tables without names

Names of message sets, messages and signals are written into comments and into string literals.
Without them the tables give sections of the same outline (`outline_anonymous`): as many
lines, each with the same code but for what its literals say, and with a comment where there was
one.
-/

namespace CanTables

open Emit

/-! ## Tables without names -/

/-- The row without the message's name. -/
def MessageRow.anonymous (row : MessageRow) : MessageRow :=
  { row with message := { row.message with name := none } }

/-- The row without the signal's names. -/
def SignalRow.anonymous (row : SignalRow) : SignalRow :=
  { row with signal := { row.signal with name := "", genericName := "" } }

/-- The tables of a set without names of the set, its messages and its signals. -/
def SetTables.anonymous (t : SetTables) : SetTables :=
  { t with
    name := ""
    messages := t.messages.map MessageRow.anonymous
    signals := t.signals.map SignalRow.anonymous }

/-- The tables without names of sets, messages and signals. -/
def Tables.anonymous (t : Tables) : Tables := { t with sets := t.sets.map SetTables.anonymous }

namespace Tables

variable (t : Tables)

theorem largest_anonymous {count : SetTables → Nat} (h : ∀ set, count set.anonymous = count set) :
    t.anonymous.largest count = t.largest count := by
  simp only [largest, anonymous, List.foldr_map, h]

theorem maxMessageCount_anonymous : t.anonymous.maxMessageCount = t.maxMessageCount :=
  t.largest_anonymous fun _ => List.length_map ..

theorem maxSignalCount_anonymous : t.anonymous.maxSignalCount = t.maxSignalCount :=
  t.largest_anonymous fun _ => List.length_map ..

theorem maxCommandCount_anonymous : t.anonymous.maxCommandCount = t.maxCommandCount :=
  t.largest_anonymous fun _ => rfl

theorem maxRequestCount_anonymous : t.anonymous.maxRequestCount = t.maxRequestCount :=
  t.largest_anonymous fun _ => rfl

theorem length_anonymous : t.anonymous.sets.length = t.sets.length := List.length_map ..

end Tables

theorem SetTables.stateTable_anonymous (t : SetTables) : t.anonymous.stateTable = t.stateTable :=
  List.filterMap_map ..

namespace Emit

/-- The lines of the set's outlines are the same without names. -/
theorem map_sets_anonymous {α : Type} (outline : Line → α) (tables : Tables)
    (lines : SetTables → List Line)
    (h : ∀ set, (lines set.anonymous).map outline = (lines set).map outline) :
    (tables.anonymous.sets.flatMap lines).map outline =
      (tables.sets.flatMap lines).map outline := by
  rw [List.map_flatMap, List.map_flatMap, Tables.anonymous, List.flatMap_map]
  exact List.flatMap_congr fun set _ => h set

/-! ## Branches without names -/

/-- The branch without the names of the message and its signals. -/
def MessageBranch.anonymous (branch : MessageBranch) : MessageBranch :=
  { branch with
    label := ""
    signalCalls := branch.signalCalls.map fun call => { call with name := "" } }

/-- The branches of a bus without names. -/
def BusBranch.anonymous (branch : BusBranch) : BusBranch :=
  { branch with messages := branch.messages.map MessageBranch.anonymous }

theorem messageBranch?_anonymous (t : SetTables) (row : MessageRow) :
    messageBranch? t.anonymous row.anonymous =
      (messageBranch? t row).map MessageBranch.anonymous := by
  unfold messageBranch?
  have hcondition : (row.anonymous.signals.isEmpty && row.anonymous.message.handlers.isEmpty) =
      (row.signals.isEmpty && row.message.handlers.isEmpty) := rfl
  rw [hcondition]
  split
  · rfl
  · have hname : ∀ index : Nat,
        ((t.anonymous.signals[index]?).map (·.signal.name)).getD "" = "" := by
      intro index
      rw [SetTables.anonymous, List.getElem?_map, Option.map_map]
      cases t.signals[index]? <;> rfl
    rw [Option.map_some, Option.some.injEq, MessageBranch.anonymous, List.map_map]
    simp only [hname]
    rfl

theorem dispatch_anonymous (t : SetTables) :
    dispatch t.anonymous = (dispatch t).map BusBranch.anonymous := by
  rw [dispatch, dispatch, List.map_map]
  refine List.map_congr_left fun entry _ => ?_
  have hmessages : t.anonymous.messagesOn entry.2 =
      (t.messagesOn entry.2).map MessageRow.anonymous := by
    rw [SetTables.messagesOn, SetTables.anonymous, List.filter_map]
    rfl
  show busBranch t.anonymous entry.2 entry.1 = (busBranch t entry.2 entry.1).anonymous
  rw [busBranch, busBranch, BusBranch.anonymous, hmessages, List.filterMap_map, List.map_filterMap]
  refine congrArg (BusBranch.mk _ · _) (List.filterMap_congr fun row _ => ?_)
  exact messageBranch?_anonymous t row

/-! ## Lines with a quoted text -/

/-- A printable character that begins neither a literal nor a comment. -/
def isPlain (c : Char) : Bool :=
  isPrintable c && !(['"', '\'', '/', '#'].contains c)

theorem isPrintable_of_isPlain {cs : List Char} (h : cs.all isPlain = true) :
    cs.all isPrintable = true := by
  rw [List.all_eq_true] at h ⊢
  exact fun c hc => (Bool.and_eq_true_iff.mp (h c hc)).1

/-- Plain code is code. -/
theorem Cursor.foldl_plain {target : Target} {cs : List Char} (h : cs.all isPlain = true)
    (code : List Char) : cs.foldl (step target) ⟨.code, code⟩ = ⟨.code, code ++ cs⟩ := by
  induction cs generalizing code with
  | nil => rw [List.foldl_nil, List.append_nil]
  | cons c cs ih =>
    rw [List.all_cons, Bool.and_eq_true_iff] at h
    have hstep : step target ⟨.code, code⟩ c = ⟨.code, code ++ [c]⟩ := by
      have hplain := h.1
      simp [isPlain] at hplain
      obtain ⟨-, hquote, hsingle, hslash, hhash⟩ := hplain
      show enter target code c = _
      unfold enter
      rw [if_neg (not_or.mpr ⟨hquote, hsingle⟩)]
      cases target with
      | cpp => exact if_neg hslash
      | python => exact if_neg hhash
    rw [List.foldl_cons, hstep, ih h.2, List.append_assoc]
    rfl

theorem all_isPlain_write (base n : Nat) : (Text.Digits.write base n).all isPlain = true := by
  have hdigit : ∀ d, isPlain (Nat.digitChar d) = true := by
    intro d
    by_cases hd : d < 16
    · interval_cases d <;> rfl
    · rw [Nat.digitChar_eq_star.mpr (Nat.le_of_not_lt hd)]
      rfl
  have hcore : ∀ fuel n ds, ds.all isPlain = true →
      (Nat.toDigitsCore base fuel n ds).all isPlain = true := by
    intro fuel
    induction fuel with
    | zero => exact fun n ds hds => hds
    | succ fuel ih =>
      intro n ds hds
      have hcons : (Nat.digitChar (n % base) :: ds).all isPlain = true := by
        rw [List.all_cons, hdigit, hds]
        rfl
      rw [Nat.toDigitsCore]
      split
      · exact hcons
      · exact ih _ _ hcons
  exact hcore _ _ _ rfl

theorem all_isPlain_decimal (n : Nat) :
    (Text.Digits.decimal (n : Int)).toList.all isPlain = true := by
  rw [Text.toList_decimal_natCast]
  exact all_isPlain_write 10 n

variable {ends : Char → Bool} {target : Target}

/-- Code reads the same with any text in the place of a quoted one. -/
theorem read_literal (lineEnd : LineEnd ends) {before : String}
    (printable : before.toList.all isPrintable = true)
    (mode : (before.toList.foldl (Cursor.step target) .start).mode = .code)
    (text text' after : String) :
    Cursor.read ends target .start (before ++ (Text.Literal.quote text ++ after)).toList =
      Cursor.read ends target .start (before ++ (Text.Literal.quote text' ++ after)).toList := by
  rw [String.toList_append, String.toList_append, String.toList_append, String.toList_append]
  exact lineEnd.read_literal printable mode text text' after.toList

theorem outline_bare_literal (lineEnd : LineEnd ends) {before : String}
    (printable : before.toList.all isPrintable = true)
    (mode : (before.toList.foldl (Cursor.step target) .start).mode = .code)
    (text text' after : String) :
    (Line.bare (before ++ (Text.Literal.quote text ++ after))).outline ends target =
      (Line.bare (before ++ (Text.Literal.quote text' ++ after))).outline ends target :=
  Prod.ext (read_literal lineEnd printable mode text text' after) rfl

/-- In the firmware's syntax the comment may change as well. -/
theorem outline_noted_literal (lineEnd : LineEnd ends) {before : String}
    (printable : before.toList.all isPrintable = true)
    (mode : (before.toList.foldl (Cursor.step .cpp) .start).mode = .code)
    (text text' after note note' : String) :
    (Line.noted (before ++ (Text.Literal.quote text ++ after)) note).outline ends .cpp =
      (Line.noted (before ++ (Text.Literal.quote text' ++ after)) note').outline ends .cpp :=
  Prod.ext (read_literal lineEnd printable mode text text' after) rfl

/-! ## The firmware -/

namespace Firmware

open Line

variable (tables : Tables)

theorem array_anonymous (declaration : String) {rows : SetTables → List Line}
    (h : ∀ set, (rows set.anonymous).map (Line.outline ends .cpp) =
      (rows set).map (Line.outline ends .cpp)) :
    (array declaration tables.anonymous rows).map (Line.outline ends .cpp) =
      (array declaration tables rows).map (Line.outline ends .cpp) := by
  rw [array, array, List.map_append, List.map_append, List.map_append, List.map_append,
    map_sets_anonymous]
  intro set
  rw [List.map_append, List.map_append, List.map_append, List.map_append, h]
  rfl

theorem branches_anonymous (declaration : String) {body : SetTables → List Line}
    (h : ∀ set, (body set.anonymous).map (Line.outline ends .cpp) =
      (body set).map (Line.outline ends .cpp)) :
    (branches declaration tables.anonymous body).map (Line.outline ends .cpp) =
      (branches declaration tables body).map (Line.outline ends .cpp) := by
  rw [branches, branches, List.map_append, List.map_append, List.map_append, List.map_append,
    map_sets_anonymous]
  intro set
  rw [List.map_append, List.map_append, List.map_append, List.map_append, h]
  rfl

/-- A row of the table of message sets. -/
def messageSetLine (t : SetTables) : Line :=
  bare ("    " ++ spaced
    [number t.index, Text.Literal.quote t.name, number t.buses.length, number t.messages.length,
      number t.signals.length, number t.commands.length] ++ ",")

theorem messageSets_eq : messageSets tables = [constant "MESSAGE_SET_COUNT" tables.sets.length,
    bare "CanMessageSet MESSAGE_SETS[MESSAGE_SET_COUNT] = \x7b"] ++
      tables.sets.map messageSetLine ++ [bare "\x7d;", blank] := rfl

theorem messageSets_anonymous (lineEnd : LineEnd ends) :
    (messageSets tables.anonymous).map (Line.outline ends .cpp) =
      (messageSets tables).map (Line.outline ends .cpp) := by
  have hline : ∀ (index : Nat) (name : String) (rest : List String) (count : String),
      "    " ++ spaced (number index :: Text.Literal.quote name :: count :: rest) ++ "," =
        ("    \x7b " ++ number index ++ ", ") ++
          (Text.Literal.quote name ++ (", " ++ commas (count :: rest) ++ " \x7d,")) := by
    intro index name rest count
    rw [spaced, commas_cons_cons, commas_cons_cons]
    simp only [String.append_assoc]
    rfl
  have hnumber : ∀ index : Nat,
      ("    \x7b " ++ number index ++ ", ").toList.all isPlain = true := by
    intro index
    rw [String.toList_append, String.toList_append, List.all_append, List.all_append, number,
      all_isPlain_decimal]
    rfl
  have hset : ∀ set : SetTables, (messageSetLine set.anonymous).outline ends .cpp =
      (messageSetLine set).outline ends .cpp := by
    intro set
    simp only [messageSetLine, SetTables.anonymous, List.length_map, hline]
    refine outline_bare_literal lineEnd (isPrintable_of_isPlain (hnumber set.index)) ?_ _ _ _
    rw [Cursor.start, Cursor.foldl_plain (hnumber set.index)]
  rw [messageSets_eq, messageSets_eq, tables.length_anonymous, List.map_append, List.map_append,
    List.map_append, List.map_append, Tables.anonymous, List.map_map, List.map_map, List.map_map]
  have hsets : tables.sets.map ((Line.outline ends .cpp ∘ messageSetLine) ∘ SetTables.anonymous) =
      tables.sets.map (Line.outline ends .cpp ∘ messageSetLine) :=
    List.map_congr_left fun set _ => hset set
  rw [hsets]

theorem messages_anonymous : (messages tables.anonymous).map (Line.outline ends .cpp) =
    (messages tables).map (Line.outline ends .cpp) := by
  rw [messages, messages, tables.maxMessageCount_anonymous, List.map_cons, List.map_cons]
  refine congrArg (_ :: ·) (array_anonymous tables _ fun set => ?_)
  rw [SetTables.anonymous, List.map_map, List.map_map, List.map_map]
  exact List.map_congr_left fun row _ => rfl

/-- What is written of a signal behind its generic name. -/
def signalRest (t : SetTables) (row : SignalRow) : List String :=
  let x := row.signal
  [number row.bitPosition.toNat, number row.bitSize.toNat, x.factor.fixed, x.offset.fixed,
      x.minValue.fixed, x.maxValue.fixed, group [row.maxFrequency.fixed], truth x.sendSame,
      truth row.forceSendChanged] ++
    stateReference t row.states ++
    [truth x.writable, function x.effectiveDecoder, function x.effectiveEncoder]

/-- What is written of a signal in front of its generic name. -/
def signalStart (t : SetTables) (row : SignalRow) : String :=
  "        " ++ "\x7b" ++ "&" ++ element "CAN_MESSAGES" t.index row.messageIndex ++ ", "

theorem signalLine_eq (t : SetTables) (row : SignalRow) : signalLine t row =
    noted (signalStart t row ++ (Text.Literal.quote row.signal.genericName ++
      (", " ++ commas (signalRest t row) ++ "\x7d" ++ ","))) row.signal.name := by
  have hcommas : commas (("&" ++ element "CAN_MESSAGES" t.index row.messageIndex) ::
      Text.Literal.quote row.signal.genericName :: signalRest t row) =
        ("&" ++ element "CAN_MESSAGES" t.index row.messageIndex) ++ (", " ++
          (Text.Literal.quote row.signal.genericName ++ (", " ++ commas (signalRest t row)))) := by
    rw [commas_cons_cons, signalRest, List.append_assoc, List.cons_append, commas_cons_cons]
  have hfragments : signalLine t row = noted ("        " ++
      group (("&" ++ element "CAN_MESSAGES" t.index row.messageIndex) ::
        Text.Literal.quote row.signal.genericName :: signalRest t row) ++ ",") row.signal.name := by
    simp only [signalLine, signalRest, List.cons_append, List.nil_append]
  rw [hfragments, group, hcommas, signalStart]
  simp only [String.append_assoc]

theorem all_isPlain_signalStart (t : SetTables) (row : SignalRow) :
    (signalStart t row).toList.all isPlain = true := by
  simp only [signalStart, element, String.toList_append, List.all_append, number,
    all_isPlain_decimal]
  decide

theorem signals_anonymous (lineEnd : LineEnd ends) :
    (signals tables.anonymous).map (Line.outline ends .cpp) =
      (signals tables).map (Line.outline ends .cpp) := by
  refine array_anonymous tables _ fun set => ?_
  have hrow : ∀ row : SignalRow, (signalLine set.anonymous row.anonymous).outline ends .cpp =
      (signalLine set row).outline ends .cpp := by
    intro row
    have hplain := all_isPlain_signalStart set row
    have hstart : signalStart set.anonymous row.anonymous = signalStart set row := rfl
    have hrest : signalRest set.anonymous row.anonymous = signalRest set row := rfl
    rw [signalLine_eq, signalLine_eq, hstart, hrest]
    refine outline_noted_literal lineEnd (isPrintable_of_isPlain hplain) ?_ _ _ _ _ _
    rw [Cursor.start, Cursor.foldl_plain hplain]
  rw [SetTables.anonymous, List.map_map, List.map_map, List.map_map]
  exact List.map_congr_left fun row _ => hrow row

theorem signalStates_anonymous : (signalStates tables.anonymous).map (Line.outline ends .cpp) =
    (signalStates tables).map (Line.outline ends .cpp) := by
  rw [signalStates, signalStates, tables.maxSignalCount_anonymous, List.map_append, List.map_append,
    array_anonymous]
  intro set
  rw [set.stateTable_anonymous]

theorem messageBranchLines_anonymous (set : Nat) (branch : MessageBranch) :
    (messageBranchLines set branch.anonymous).map (Line.outline ends .cpp) =
      (messageBranchLines set branch).map (Line.outline ends .cpp) := by
  rw [messageBranchLines, messageBranchLines, MessageBranch.anonymous, List.map_map]
  simp only [List.map_append, List.map_map]
  rfl

theorem decoder_anonymous : (decoder tables.anonymous).map (Line.outline ends .cpp) =
    (decoder tables).map (Line.outline ends .cpp) := by
  refine branches_anonymous tables _ fun set => ?_
  have hbus : ∀ branch : BusBranch,
      (busBranchLines set.index branch.anonymous).map (Line.outline ends .cpp) =
        (busBranchLines set.index branch).map (Line.outline ends .cpp) := by
    intro branch
    have hmessages : (branch.anonymous.messages.flatMap (messageBranchLines set.index)).map
        (Line.outline ends .cpp) =
          (branch.messages.flatMap (messageBranchLines set.index)).map
            (Line.outline ends .cpp) := by
      rw [BusBranch.anonymous, List.flatMap_map, List.map_flatMap, List.map_flatMap]
      exact List.flatMap_congr fun m _ => messageBranchLines_anonymous set.index m
    simp only [busBranchLines, List.map_append, hmessages]
    rfl
  have hindex : set.anonymous.index = set.index := rfl
  rw [dispatch_anonymous, List.flatMap_map, hindex, List.map_append, List.map_append,
    List.map_append, List.map_append, List.map_flatMap, List.map_flatMap]
  refine congrArg (_ ++ · ++ _) (List.flatMap_congr fun branch _ => hbus branch)

theorem buses_anonymous : (buses tables.anonymous).map (Line.outline ends .cpp) =
    (buses tables).map (Line.outline ends .cpp) := by
  rw [buses, buses, List.map_cons, List.map_cons, array_anonymous]
  exact fun _ => rfl

theorem commands_anonymous : (commands tables.anonymous).map (Line.outline ends .cpp) =
    (commands tables).map (Line.outline ends .cpp) := by
  rw [commands, commands, tables.maxCommandCount_anonymous, List.map_cons, List.map_cons,
    array_anonymous]
  exact fun _ => rfl

theorem requests_anonymous : (requests tables.anonymous).map (Line.outline ends .cpp) =
    (requests tables).map (Line.outline ends .cpp) := by
  rw [requests, requests, tables.maxRequestCount_anonymous, List.map_cons, List.map_cons,
    array_anonymous]
  exact fun _ => rfl

/-- The sections of the source, in their order. -/
def sectionList : List (Tables → List Line) :=
  [fun _ => header, messageSets, buses, messages, signalStates, signals, initializers, loopers,
    commands, requests, decoder, fun _ => footer]

/-- The source consists of its sections; the extra source files stand behind the first one. -/
theorem pieces_eq (extra : List String) : pieces tables extra =
    Piece.lines header ++ extra.map Piece.copied ++
      Piece.lines (sectionList.tail.flatMap fun lines => lines tables) := by
  simp only [pieces, sectionList, List.tail_cons, List.flatMap_cons, List.flatMap_nil,
    List.append_nil, List.append_assoc]

theorem outline_anonymous (lineEnd : LineEnd ends) : ∀ lines ∈ sectionList,
    (lines tables.anonymous).map (Line.outline ends .cpp) =
      (lines tables).map (Line.outline ends .cpp) := by
  have hinitializers : (initializers tables.anonymous).map (Line.outline ends .cpp) =
      (initializers tables).map (Line.outline ends .cpp) :=
    branches_anonymous tables _ fun _ => rfl
  have hloopers : (loopers tables.anonymous).map (Line.outline ends .cpp) =
      (loopers tables).map (Line.outline ends .cpp) :=
    branches_anonymous tables _ fun _ => rfl
  simp only [sectionList, List.forall_mem_cons]
  exact ⟨trivial, messageSets_anonymous tables lineEnd, buses_anonymous tables,
    messages_anonymous tables, signalStates_anonymous tables, signals_anonymous tables lineEnd,
    hinitializers, hloopers, commands_anonymous tables, requests_anonymous tables,
    decoder_anonymous tables, trivial, nofun⟩

end Firmware

/-! ## Records -/

namespace Script

open Line

variable (tables : Tables)

theorem rows_anonymous {lines : SetTables → List Line}
    (h : ∀ set, (lines set.anonymous).map (Line.outline ends .python) =
      (lines set).map (Line.outline ends .python)) :
    (rows tables.anonymous lines).map (Line.outline ends .python) =
      (rows tables lines).map (Line.outline ends .python) := by
  rw [rows, rows, List.map_append, List.map_append, map_sets_anonymous]
  intro set
  rw [List.map_cons, List.map_cons, h]
  rfl

theorem hookFunction_anonymous (name : String) {hooks : SetTables → List String}
    (h : ∀ set, hooks set.anonymous = hooks set) :
    (hookFunction name tables.anonymous hooks).map (Line.outline ends .python) =
      (hookFunction name tables hooks).map (Line.outline ends .python) := by
  have hempty : tables.anonymous.sets.isEmpty = tables.sets.isEmpty := List.isEmpty_map ..
  have hset : ∀ set : SetTables,
      (hookLines set.anonymous (hooks set.anonymous)).map (Line.outline ends .python) =
        (hookLines set (hooks set)).map (Line.outline ends .python) := by
    intro set
    rw [h]
    rfl
  have hsets := map_sets_anonymous (Line.outline ends .python) tables
    (fun set => hookLines set (hooks set)) hset
  simp only [hookFunction, hempty, List.map_append, hsets]

/-- A record has the same outline with any text in the place of a quoted one. -/
theorem record_literal (lineEnd : LineEnd ends) (name key table : String)
    (printable : (name ++ "['" ++ key ++ "'] = ").toList.all isPrintable = true)
    (mode :
      ((name ++ "['" ++ key ++ "'] = ").toList.foldl (Cursor.step .python) .start).mode = .code)
    (before after : List (String × String)) (text text' : String) :
    (record name table (before ++ (key, Text.Literal.quote text) :: after)).map
        (Line.outline ends .python) =
      (record name table (before ++ (key, Text.Literal.quote text') :: after)).map
        (Line.outline ends .python) := by
  have hline := outline_bare_literal lineEnd printable mode text text' ""
  rw [String.append_empty, String.append_empty] at hline
  simp only [record, List.map_append, List.map_cons, List.map_map, hline]

theorem messageSets_anonymous (lineEnd : LineEnd ends) :
    (messageSets tables.anonymous).map (Line.outline ends .python) =
      (messageSets tables).map (Line.outline ends .python) := by
  rw [messageSets, messageSets, tables.length_anonymous, List.map_append, List.map_append,
    map_sets_anonymous]
  intro set
  simp only [SetTables.anonymous, List.length_map]
  exact record_literal lineEnd "set" "name" "MESSAGE_SETS" (by decide) (by decide)
    [("index", number set.index)] _ "" set.name

theorem buses_anonymous : (buses tables.anonymous).map (Line.outline ends .python) =
    (buses tables).map (Line.outline ends .python) := by
  rw [buses, buses, List.map_append, List.map_append, rows_anonymous]
  exact fun _ => rfl

theorem messages_anonymous (lineEnd : LineEnd ends) :
    (messages tables.anonymous).map (Line.outline ends .python) =
      (messages tables).map (Line.outline ends .python) := by
  rw [messages, messages, tables.maxMessageCount_anonymous, List.map_append, List.map_append,
    rows_anonymous]
  intro set
  rw [SetTables.anonymous, List.flatMap_map, List.map_flatMap, List.map_flatMap]
  refine List.flatMap_congr fun row _ => ?_
  exact record_literal lineEnd "message" "name" "CAN_MESSAGES" (by decide) (by decide)
    [setEntry set, ("bus_index", number row.busIndex), ("id", number row.message.id.toNat)] [] ""
    row.message.label

theorem signalStates_anonymous : (signalStates tables.anonymous).map (Line.outline ends .python) =
    (signalStates tables).map (Line.outline ends .python) := by
  rw [signalStates, signalStates, tables.maxSignalCount_anonymous, List.map_append, List.map_append,
    rows_anonymous]
  intro set
  rw [set.stateTable_anonymous]

/-- The entries of a signal between its generic name and its name. -/
def signalMiddle (row : SignalRow) : List (String × String) :=
  let x := row.signal
  [("bit_position", number row.bitPosition.toNat), ("bit_size", number row.bitSize.toNat),
      ("factor", x.factor.fixed), ("offset", x.offset.fixed), ("min_value", x.minValue.fixed),
      ("max_value", x.maxValue.fixed), ("max_frequency", row.maxFrequency.fixed),
      ("send_same", truth x.sendSame), ("force_send_changed", truth row.forceSendChanged)] ++
    stateEntries row.states ++
    [("writable", truth x.writable), ("decoder", optionalText x.effectiveDecoder),
      ("encoder", optionalText x.effectiveEncoder)]

theorem signalEntries_eq (t : SetTables) (row : SignalRow) : signalEntries t row =
    [setEntry t, ("message_index", number row.messageIndex)] ++
      ("generic_name", Text.Literal.quote row.signal.genericName) ::
        (signalMiddle row ++ [("name", Text.Literal.quote row.signal.name)]) := by
  simp only [signalEntries, signalMiddle, List.cons_append, List.nil_append, List.append_assoc]

theorem signals_anonymous (lineEnd : LineEnd ends) :
    (signals tables.anonymous).map (Line.outline ends .python) =
      (signals tables).map (Line.outline ends .python) := by
  rw [signals, signals, List.map_cons, List.map_cons, rows_anonymous]
  intro set
  rw [SetTables.anonymous, List.flatMap_map, List.map_flatMap, List.map_flatMap]
  refine List.flatMap_congr fun row _ => ?_
  have hmiddle : signalMiddle row.anonymous = signalMiddle row := rfl
  have hstart : ([setEntry set.anonymous, ("message_index", number row.anonymous.messageIndex)] :
      List (String × String)) = [setEntry set, ("message_index", number row.messageIndex)] := rfl
  show (record "signal" "SIGNALS" (signalEntries set.anonymous row.anonymous)).map _ = _
  rw [signalEntries_eq, signalEntries_eq, hmiddle, hstart]
  -- First the generic name and then the name.
  have hgeneric := record_literal lineEnd "signal" "generic_name" "SIGNALS" (by decide) (by decide)
    [setEntry set, ("message_index", number row.messageIndex)]
    (signalMiddle row ++ [("name", Text.Literal.quote "")]) "" row.signal.genericName
  refine hgeneric.trans ?_
  have hname := record_literal lineEnd "signal" "name" "SIGNALS" (by decide) (by decide)
    ([setEntry set, ("message_index", number row.messageIndex)] ++
      ("generic_name", Text.Literal.quote row.signal.genericName) :: signalMiddle row) [] ""
    row.signal.name
  rwa [List.append_assoc, List.cons_append, List.append_assoc, List.cons_append] at hname

theorem commands_anonymous : (commands tables.anonymous).map (Line.outline ends .python) =
    (commands tables).map (Line.outline ends .python) := by
  rw [commands, commands, tables.maxCommandCount_anonymous, List.map_append, List.map_append,
    rows_anonymous]
  exact fun _ => rfl

theorem requests_anonymous : (requests tables.anonymous).map (Line.outline ends .python) =
    (requests tables).map (Line.outline ends .python) := by
  rw [requests, requests, tables.maxRequestCount_anonymous, List.map_append, List.map_append,
    rows_anonymous]
  exact fun _ => rfl

/-- The sections of the source, in their order. -/
def sectionList : List (Tables → List Line) :=
  [fun _ => header, messageSets, buses, messages, signalStates, signals, initializers, loopers,
    commands, requests]

/-- The source consists of its sections. -/
theorem pieces_eq : pieces tables =
    Piece.lines (sectionList.flatMap fun lines => lines tables) := by
  simp only [pieces, sectionList, List.flatMap_cons, List.flatMap_nil, List.append_nil,
    List.append_assoc]

theorem outline_anonymous (lineEnd : LineEnd ends) : ∀ lines ∈ sectionList,
    (lines tables.anonymous).map (Line.outline ends .python) =
      (lines tables).map (Line.outline ends .python) := by
  have hinitializers : (initializers tables.anonymous).map (Line.outline ends .python) =
      (initializers tables).map (Line.outline ends .python) :=
    hookFunction_anonymous tables _ fun _ => rfl
  have hloopers : (loopers tables.anonymous).map (Line.outline ends .python) =
      (loopers tables).map (Line.outline ends .python) :=
    hookFunction_anonymous tables _ fun _ => rfl
  simp only [sectionList, List.forall_mem_cons]
  exact ⟨trivial, messageSets_anonymous tables lineEnd, buses_anonymous tables,
    messages_anonymous tables lineEnd, signalStates_anonymous tables,
    signals_anonymous tables lineEnd, hinitializers, hloopers, commands_anonymous tables,
    requests_anonymous tables, nofun⟩

end Script

/-- The sections of the source in a language, in their order. -/
def sectionsOf : Target → List (Tables → List Line)
  | .cpp => Firmware.sectionList
  | .python => Script.sectionList

/-- Tables without names give sections of the same outline. -/
theorem outline_anonymous (lineEnd : LineEnd ends) (tables : Tables) :
    ∀ lines ∈ sectionsOf target, (lines tables.anonymous).map (Line.outline ends target) =
      (lines tables).map (Line.outline ends target) := by
  cases target with
  | cpp => exact Firmware.outline_anonymous tables lineEnd
  | python => exact Script.outline_anonymous tables lineEnd

end Emit

end CanTables
