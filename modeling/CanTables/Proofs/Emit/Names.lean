import CanTables.Proofs.Emit.Anonymous

/-!
# CanTables.Proofs.Emit.Names — what names do to the emitted source

Names of message sets, messages and signals are quoted in string literals, but they stand in
comments as they are.  So what a compiler sees of a section depends on the names in one way only
(`codeParts_sectionsOf`): a line end in a name ends the comment, and what follows it in the name is
a line of its own.  Names without line ends leave nothing behind.  In the firmware's syntax a
backslash at the end of a comment takes the next line into the comment as well, which `codeParts`
leaves out of account; there is such a comment exactly if a name ends in a backslash.

For this no comment may begin in a literal.  All that stands in front of a comment and could begin
one, apart from what is quoted, are the functions that decode and encode a signal, in the firmware's
syntax.
-/

namespace CanTables

open Emit

/-! ## Names -/

/-- The names of a set, its messages and its signals. -/
def SetTables.names (t : SetTables) : List String :=
  t.name :: (t.messages.map (·.message.label) ++ t.signals.map (·.signal.name))

namespace Tables

/-- The names of all sets, messages and signals. -/
def names (t : Tables) : List String := t.sets.flatMap SetTables.names

variable {t : Tables} {set : SetTables} (hset : set ∈ t.sets)
include hset

theorem set_mem_names : set.name ∈ t.names :=
  List.mem_flatMap.mpr ⟨set, hset, List.mem_cons_self⟩

theorem message_mem_names {row : MessageRow} (hrow : row ∈ set.messages) :
    row.message.label ∈ t.names :=
  List.mem_flatMap.mpr ⟨set, hset, List.mem_cons_of_mem _
    (List.mem_append_left _ (List.mem_map_of_mem hrow))⟩

theorem signal_mem_names {row : SignalRow} (hrow : row ∈ set.signals) :
    row.signal.name ∈ t.names :=
  List.mem_flatMap.mpr ⟨set, hset, List.mem_cons_of_mem _
    (List.mem_append_right _ (List.mem_map_of_mem hrow))⟩

end Tables

namespace Emit

/-- What a comment may say: nothing, the macro that an `#endif` belongs to, or a name. -/
inductive Note (names : List String) : String → Prop
  | empty : Note names ""
  | endif : Note names "__PIC32__"
  | name {text : String} : text ∈ names → Note names text
  | set {text : String} : text ∈ names → Note names ("message set: " ++ text)

/-- A text on one line. -/
def Unbroken (ends : Char → Bool) (text : String) : Prop := ∀ c ∈ text.toList, ends c = false

instance (ends : Char → Bool) (text : String) : Decidable (Unbroken ends text) :=
  List.decidableBAll (ends · = false) text.toList

/-- A text that would take the next line with it. -/
def EndsInBackslash (text : String) : Prop := text.toList.getLast? = some '\\'

instance (text : String) : Decidable (EndsInBackslash text) :=
  inferInstanceAs (Decidable (text.toList.getLast? = some '\\'))

theorem Note.unbroken {ends : Char → Bool} (lineEnd : LineEnd ends) {names : List String}
    (h : ∀ name ∈ names, Unbroken ends name) {note : String} (hnote : Note names note) :
    Unbroken ends note := by
  cases hnote with
  | empty => exact lineEnd.forall_of_isPrintable (by decide)
  | endif => exact lineEnd.forall_of_isPrintable (by decide)
  | name hname => exact h _ hname
  | set hname =>
    rw [Unbroken, String.toList_append]
    exact List.forall_mem_append.mpr ⟨lineEnd.forall_of_isPrintable (by decide), h _ hname⟩

/-! ## Texts without quotes -/

/-- A text in which no literal begins. -/
def Quoteless (text : String) : Prop := ∀ c ∈ text.toList, c ≠ '"' ∧ c ≠ '\''

instance (text : String) : Decidable (Quoteless text) :=
  List.decidableBAll (fun c => c ≠ '"' ∧ c ≠ '\'') text.toList

namespace Quoteless

variable {text : String}

theorem append {text' : String} (h : Quoteless text) (h' : Quoteless text') :
    Quoteless (text ++ text') := by
  rw [Quoteless, String.toList_append]
  exact List.forall_mem_append.mpr ⟨h, h'⟩

theorem of_isPlain {cs : List Char} (h : cs.all isPlain = true) :
    Quoteless (String.ofList cs) := by
  intro c hc
  rw [String.toList_ofList] at hc
  have hplain := List.all_eq_true.mp h c hc
  simp [isPlain] at hplain
  exact ⟨hplain.2.1, hplain.2.2.1⟩

theorem number (n : Nat) : Quoteless (Text.Digits.decimal n) := by
  have h := of_isPlain (all_isPlain_decimal n)
  rwa [String.ofList_toList] at h

theorem hex (id : UInt32) : Quoteless (Firmware.hex id) :=
  append (by decide) (of_isPlain (all_isPlain_write 16 _))

theorem fixed {f : Numeric.Format} (x : Numeric.Floating f) : Quoteless x.fixed := by
  have hpadded : ∀ width n, (Text.Digits.padded width n).all isPlain = true := by
    intro width n
    simp only [Text.Digits.padded, List.all_append, all_isPlain_write, List.all_replicate]
    simp [isPlain, isPrintable]
  have hwritten : ∀ (sign : List Char) (whole width rest : Nat), sign.all isPlain = true →
      Quoteless (String.ofList (sign ++ Text.Digits.write 10 whole ++
        '.' :: Text.Digits.padded width rest)) := by
    intro sign whole width rest hsign
    refine of_isPlain ?_
    rw [List.all_append, List.all_append, List.all_cons, hsign, all_isPlain_write, hpadded]
    rfl
  unfold Numeric.Floating.fixed
  split
  · decide
  · split <;> decide
  · exact hwritten _ _ _ _ (by split <;> decide)

theorem commas {fragments : List String} (h : ∀ fragment ∈ fragments, Quoteless fragment) :
    Quoteless (Firmware.commas fragments) := by
  induction fragments with
  | nil => decide
  | cons fragment rest ih =>
    obtain ⟨hfragment, hrest⟩ := List.forall_mem_cons.mp h
    cases rest with
    | nil => exact hfragment
    | cons next rest =>
      rw [Firmware.commas_cons_cons]
      exact hfragment.append (append (by decide) (ih hrest))

theorem group {fragments : List String} (h : ∀ fragment ∈ fragments, Quoteless fragment) :
    Quoteless (Firmware.group fragments) :=
  append (append (by decide) (commas h)) (by decide)

theorem element {table : String} (h : Quoteless table) (set row : Nat) :
    Quoteless (Firmware.element table set row) :=
  ((((h.append (by decide)).append (number set)).append (by decide)).append (number row)).append
    (by decide)

theorem truth (b : Bool) : Quoteless (Firmware.truth b) := by
  cases b <;> decide

end Quoteless

end Emit

/-- The functions that decode and encode signals have no quotes in their names. -/
def Tables.QuotelessFunctions (t : Tables) : Prop :=
  ∀ set ∈ t.sets, ∀ row ∈ set.signals,
    Quoteless (Firmware.function row.signal.effectiveDecoder) ∧
      Quoteless (Firmware.function row.signal.effectiveEncoder)

namespace Emit

/-! ## Lines with names -/

/-- A comment on the line says no more than a name, and it does not begin in a literal. -/
structure Line.Annotated (ends : Char → Bool) (target : Target) (tables : Tables) (l : Line) :
    Prop where
  note : ∀ note, l.comment = some note → Note tables.names note
  closed : (target = .cpp → tables.QuotelessFunctions) → l.Closed ends target

variable {ends : Char → Bool} {target : Target} {tables : Tables}

namespace Line

theorem annotated_bare (code : String) : (bare code).Annotated ends target tables :=
  ⟨nofun, fun _ h => absurd rfl h⟩

theorem annotated_noted {code note : String} (hcode : Quoteless code)
    (hnote : Note tables.names note) : (noted code note).Annotated ends target tables :=
  ⟨fun _ h => Option.some.inj h ▸ hnote, fun _ _ => Cursor.inLiteral_read hcode rfl⟩

/-- A literal between plain code and code without quotes is over when the comment begins. -/
theorem closed_literal (lineEnd : LineEnd ends) {before after : String}
    (hbefore : before.toList.all isPlain = true) (hafter : Quoteless after) (text note : String) :
    (noted (before ++ (Text.Literal.quote text ++ after)) note).Closed ends target := by
  intro _
  have hbegin : Cursor.read ends target .start before.toList = ([], ⟨.code, before.toList⟩) := by
    rw [Cursor.read_of_forall (lineEnd.forall_of_isPrintable (isPrintable_of_isPlain hbefore)),
      Cursor.start, Cursor.foldl_plain hbefore, List.nil_append]
  have hquote : Cursor.read ends target ⟨.code, before.toList⟩ (Text.Literal.quote text).toList =
      ([], ⟨.code, before.toList ++ ['"', '"']⟩) := by
    rw [Cursor.read_of_forall fun c hc => lineEnd.of_isPrintable (isPrintable_of_mem_quote hc),
      Cursor.foldl_quote]
  rw [noted, String.toList_append, String.toList_append, Cursor.read_append, hbegin,
    Cursor.read_append, hquote]
  exact Cursor.inLiteral_read hafter rfl

theorem annotated_of_bare {lines : List Line} (h : ∀ l ∈ lines, l.comment = none) :
    ∀ l ∈ lines, l.Annotated ends target tables := by
  intro l hl
  obtain ⟨code, comment⟩ := l
  obtain rfl : comment = none := h _ hl
  exact annotated_bare code

end Line

namespace Firmware

open Line

theorem setNote_mem {set : SetTables} (hset : set ∈ tables.sets) :
    Note tables.names (setNote set) :=
  .set (Tables.set_mem_names hset)

theorem mem_array {declaration : String} {rows : SetTables → List Line} {set : SetTables}
    (hset : set ∈ tables.sets) {l : Line} (hl : l ∈ noted "    \x7b" (setNote set) :: rows set) :
    l ∈ array declaration tables rows :=
  List.mem_append_left _ (List.mem_append_right _
    (List.mem_flatMap.mpr ⟨set, hset, List.mem_append_left _ hl⟩))

theorem annotated_array (declaration : String) {rows : SetTables → List Line}
    (h : ∀ set ∈ tables.sets, ∀ l ∈ rows set, l.Annotated ends .cpp tables) :
    ∀ l ∈ array declaration tables rows, l.Annotated ends .cpp tables := by
  refine List.forall_mem_append.mpr ⟨List.forall_mem_append.mpr ⟨?_, ?_⟩, ?_⟩
  · exact List.forall_mem_singleton.mpr (annotated_bare _)
  · refine List.forall_mem_flatMap.mpr fun set hset => ?_
    refine List.forall_mem_append.mpr ⟨List.forall_mem_append.mpr ⟨?_, h set hset⟩, ?_⟩
    · exact List.forall_mem_singleton.mpr (annotated_noted (by decide) (setNote_mem hset))
    · exact annotated_of_bare (by decide)
  · exact annotated_of_bare (by decide)

theorem annotated_branches (declaration : String) {body : SetTables → List Line}
    (h : ∀ set ∈ tables.sets, ∀ l ∈ body set, l.Annotated ends .cpp tables) :
    ∀ l ∈ branches declaration tables body, l.Annotated ends .cpp tables := by
  refine List.forall_mem_append.mpr ⟨List.forall_mem_append.mpr ⟨?_, ?_⟩, ?_⟩
  · exact List.forall_mem_cons.mpr
      ⟨annotated_bare _, List.forall_mem_singleton.mpr (annotated_bare _)⟩
  · refine List.forall_mem_flatMap.mpr fun set hset => ?_
    refine List.forall_mem_append.mpr ⟨List.forall_mem_append.mpr ⟨?_, h set hset⟩, ?_⟩
    · have hcode : Quoteless ("    case " ++ number set.index ++ ":") :=
        Quoteless.append (Quoteless.append (by decide) (.number _)) (by decide)
      exact List.forall_mem_singleton.mpr (annotated_noted hcode (setNote_mem hset))
    · exact annotated_of_bare (by decide)
  · exact annotated_of_bare (by decide)

theorem annotated_messageSets :
    ∀ l ∈ messageSets tables, l.Annotated ends .cpp tables := by
  rw [messageSets_eq]
  refine annotated_of_bare (List.forall_mem_append.mpr ⟨List.forall_mem_append.mpr ⟨?_, ?_⟩, ?_⟩)
  · exact List.forall_mem_cons.mpr ⟨rfl, List.forall_mem_singleton.mpr rfl⟩
  · exact List.forall_mem_map.mpr fun _ _ => rfl
  · decide

theorem annotated_buses : ∀ l ∈ buses tables, l.Annotated ends .cpp tables := by
  refine List.forall_mem_cons.mpr ⟨annotated_bare _, annotated_array _ fun set _ => ?_⟩
  refine List.forall_mem_flatMap.mpr fun row _ => ?_
  simp only [busLines, List.forall_mem_cons]
  exact ⟨annotated_bare _, annotated_bare _, annotated_bare _,
    annotated_noted (by decide) .endif, annotated_bare _, List.forall_mem_nil _⟩

theorem annotated_messages : ∀ l ∈ messages tables, l.Annotated ends .cpp tables := by
  refine List.forall_mem_cons.mpr ⟨annotated_bare _, annotated_array _ fun set hset => ?_⟩
  refine List.forall_mem_map.mpr fun row hrow => ?_
  refine annotated_noted (Quoteless.append (Quoteless.append (by decide) (Quoteless.group ?_))
    (by decide)) (.name (Tables.message_mem_names hset hrow))
  simp only [List.forall_mem_cons]
  refine ⟨Quoteless.append (by decide) (.element (by decide) _ _), .hex _, .group ?_, .truth _,
    List.forall_mem_nil _⟩
  exact List.forall_mem_singleton.mpr (.fixed _)

theorem annotated_signalStates : ∀ l ∈ signalStates tables, l.Annotated ends .cpp tables := by
  refine List.forall_mem_append.mpr ⟨?_, annotated_array _ fun set _ => ?_⟩
  · exact List.forall_mem_cons.mpr
      ⟨annotated_bare _, List.forall_mem_singleton.mpr (annotated_bare _)⟩
  · exact List.forall_mem_map.mpr fun _ _ => annotated_bare _

/-- Behind the generic name of a signal there is nothing quoted any more. -/
theorem closed_signalLine (lineEnd : LineEnd ends) {set : SetTables} {row : SignalRow}
    (hfunctions : Quoteless (function row.signal.effectiveDecoder) ∧
      Quoteless (function row.signal.effectiveEncoder)) :
    (signalLine set row).Closed ends .cpp := by
  have hstates : ∀ fragment ∈ stateReference set row.states, Quoteless fragment := by
    cases row.states with
    | none =>
      exact List.forall_mem_cons.mpr ⟨by decide, List.forall_mem_singleton.mpr (by decide)⟩
    | some block =>
      exact List.forall_mem_cons.mpr
        ⟨.element (by decide) _ _, List.forall_mem_singleton.mpr (.number _)⟩
  have hrest : ∀ fragment ∈ signalRest set row, Quoteless fragment := by
    refine List.forall_mem_append.mpr ⟨List.forall_mem_append.mpr ⟨?_, hstates⟩, ?_⟩
    · simp only [List.forall_mem_cons]
      exact ⟨.number _, .number _, .fixed _, .fixed _, .fixed _, .fixed _,
        .group (List.forall_mem_singleton.mpr (.fixed _)), .truth _, .truth _,
        List.forall_mem_nil _⟩
    · simp only [List.forall_mem_cons]
      exact ⟨.truth _, hfunctions.1, hfunctions.2, List.forall_mem_nil _⟩
  rw [signalLine_eq]
  exact closed_literal lineEnd (all_isPlain_signalStart set row)
    (((Quoteless.append (by decide) (.commas hrest)).append (by decide)).append (by decide)) _ _

theorem annotated_signals (lineEnd : LineEnd ends) :
    ∀ l ∈ signals tables, l.Annotated ends .cpp tables := by
  refine annotated_array _ fun set hset => List.forall_mem_map.mpr fun row hrow => ⟨?_, ?_⟩
  · intro note hnote
    obtain rfl : row.signal.name = note := Option.some.inj hnote
    exact .name (Tables.signal_mem_names hset hrow)
  · exact fun hfunctions => closed_signalLine lineEnd (hfunctions rfl set hset row hrow)

theorem annotated_hooks (declaration : String) (hooks : SetTables → List String) :
    ∀ l ∈ branches declaration tables fun t => (hooks t).map hookLine,
      l.Annotated ends .cpp tables :=
  annotated_branches _ fun _ _ => List.forall_mem_map.mpr fun _ _ => annotated_bare _

theorem annotated_commands : ∀ l ∈ commands tables, l.Annotated ends .cpp tables :=
  List.forall_mem_cons.mpr ⟨annotated_bare _, annotated_array _ fun _ _ =>
    List.forall_mem_map.mpr fun _ _ => annotated_bare _⟩

theorem annotated_requests : ∀ l ∈ requests tables, l.Annotated ends .cpp tables :=
  List.forall_mem_cons.mpr ⟨annotated_bare _, annotated_array _ fun _ _ =>
    List.forall_mem_map.mpr fun _ _ => annotated_bare _⟩

/-- A branch tells the name of its message and those of signals of the set. -/
theorem note_of_mem_dispatch {set : SetTables} (hset : set ∈ tables.sets) {branch : BusBranch}
    (hbranch : branch ∈ dispatch set) {m : MessageBranch} (hm : m ∈ branch.messages) :
    Note tables.names m.label ∧ ∀ call ∈ m.signalCalls, Note tables.names call.name := by
  obtain ⟨entry, -, rfl⟩ := List.mem_map.mp hbranch
  obtain ⟨row, hrow, hbranch⟩ := List.mem_filterMap.mp hm
  have hrow : row ∈ set.messages := List.mem_of_mem_filter hrow
  rw [messageBranch?] at hbranch
  split at hbranch
  · cases hbranch
  · cases hbranch
    refine ⟨.name (Tables.message_mem_names hset hrow), List.forall_mem_map.mpr fun index _ => ?_⟩
    -- A row that is not in the table gives an empty comment.
    show Note _ (((set.signals[index]?).map (·.signal.name)).getD "")
    cases hsignal : set.signals[index]? with
    | none => exact .empty
    | some signal => exact .name (Tables.signal_mem_names hset (List.mem_of_getElem? hsignal))

theorem annotated_messageBranchLines {set : SetTables} (hset : set ∈ tables.sets)
    {branch : BusBranch} (hbranch : branch ∈ dispatch set) {m : MessageBranch}
    (hm : m ∈ branch.messages) :
    ∀ l ∈ messageBranchLines set.index m, l.Annotated ends .cpp tables := by
  obtain ⟨hlabel, hcalls⟩ := note_of_mem_dispatch hset hbranch hm
  have hcase : Quoteless (caseCode m.id) :=
    Quoteless.append (Quoteless.append (by decide) (.hex _)) (by decide)
  have harguments : Quoteless (decoderArguments set.index) :=
    Quoteless.append (Quoteless.append (by decide) (.number _)) (by decide)
  have hcall : ∀ index, Quoteless ("                can::read::translateSignal(&" ++
      element "SIGNALS" set.index index ++ ", " ++ decoderArguments set.index) := fun index =>
    Quoteless.append (Quoteless.append (Quoteless.append (by decide) (.element (by decide) _ _))
      (by decide)) harguments
  rw [messageBranchLines_eq]
  refine List.forall_mem_cons.mpr ⟨annotated_noted hcase hlabel, List.forall_mem_append.mpr
    ⟨List.forall_mem_append.mpr ⟨?_, ?_⟩, ?_⟩⟩
  · exact List.forall_mem_map.mpr fun _ _ => annotated_bare _
  · exact List.forall_mem_map.mpr fun call hmem =>
      annotated_noted (hcall call.signalIndex) (hcalls call hmem)
  · exact List.forall_mem_singleton.mpr (annotated_bare _)

theorem annotated_decoder : ∀ l ∈ decoder tables, l.Annotated ends .cpp tables := by
  refine annotated_branches _ fun set hset => ?_
  refine List.forall_mem_append.mpr ⟨List.forall_mem_append.mpr
    ⟨?_, List.forall_mem_flatMap.mpr fun branch hbranch => ?_⟩, ?_⟩
  · exact List.forall_mem_singleton.mpr (annotated_bare _)
  · rw [busBranchLines_eq, busBody]
    refine List.forall_mem_cons.mpr ⟨annotated_bare _, List.forall_mem_append.mpr
      ⟨List.forall_mem_append.mpr ⟨List.forall_mem_append.mpr
        ⟨List.forall_mem_append.mpr ⟨?_, ?_⟩, ?_⟩, ?_⟩, ?_⟩⟩
    · exact List.forall_mem_singleton.mpr (annotated_bare _)
    · exact List.forall_mem_flatMap.mpr fun m hm => annotated_messageBranchLines hset hbranch hm
    · exact List.forall_mem_singleton.mpr (annotated_bare _)
    · split
      · exact List.forall_mem_singleton.mpr (annotated_bare _)
      · exact List.forall_mem_nil _
    · exact List.forall_mem_singleton.mpr (annotated_bare _)
  · exact List.forall_mem_singleton.mpr (annotated_bare _)

theorem annotated_sectionList (lineEnd : LineEnd ends) (tables : Tables) :
    ∀ lines ∈ sectionList, ∀ l ∈ lines tables, l.Annotated ends .cpp tables := by
  simp only [sectionList, List.forall_mem_cons]
  refine ⟨?_, annotated_messageSets, annotated_buses, annotated_messages, annotated_signalStates,
    annotated_signals lineEnd, annotated_hooks _ _, annotated_hooks _ _, annotated_commands,
    annotated_requests, annotated_decoder, ?_, List.forall_mem_nil _⟩
  · exact List.forall_mem_map.mpr fun _ _ => annotated_bare _
  · exact List.forall_mem_map.mpr fun _ _ => annotated_bare _

end Firmware

namespace Script

open Line

theorem setNote_mem {set : SetTables} (hset : set ∈ tables.sets) :
    Note tables.names (setNote set) :=
  .set (Tables.set_mem_names hset)

theorem annotated_record (name table : String) (entries : List (String × String)) :
    ∀ l ∈ record name table entries, l.Annotated ends .python tables := by
  refine annotated_of_bare (List.forall_mem_append.mpr ⟨List.forall_mem_append.mpr ⟨?_, ?_⟩, ?_⟩)
  · exact List.forall_mem_singleton.mpr rfl
  · exact List.forall_mem_map.mpr fun _ _ => rfl
  · exact List.forall_mem_cons.mpr ⟨rfl, List.forall_mem_singleton.mpr rfl⟩

theorem annotated_rows {lines : SetTables → List Line}
    (h : ∀ set ∈ tables.sets, ∀ l ∈ lines set, l.Annotated ends .python tables) :
    ∀ l ∈ rows tables lines, l.Annotated ends .python tables := by
  refine List.forall_mem_append.mpr ⟨List.forall_mem_flatMap.mpr fun set hset => ?_, ?_⟩
  · exact List.forall_mem_cons.mpr ⟨annotated_noted (by decide) (setNote_mem hset), h set hset⟩
  · exact List.forall_mem_singleton.mpr (annotated_bare _)

/-- A table of records. -/
theorem annotated_records {α : Type} {header : List Line} (hheader : ∀ l ∈ header, l.comment = none)
    (name table : String) (items : SetTables → List α)
    (entries : SetTables → α → List (String × String)) :
    ∀ l ∈ header ++ rows tables fun t => (items t).flatMap fun x => record name table (entries t x),
      l.Annotated ends .python tables :=
  List.forall_mem_append.mpr ⟨annotated_of_bare hheader, annotated_rows fun _ _ =>
    List.forall_mem_flatMap.mpr fun _ _ => annotated_record _ _ _⟩

theorem annotated_messageSets : ∀ l ∈ messageSets tables, l.Annotated ends .python tables := by
  refine List.forall_mem_append.mpr ⟨annotated_of_bare ?_, ?_⟩
  · exact List.forall_mem_cons.mpr ⟨rfl, List.forall_mem_singleton.mpr rfl⟩
  · exact List.forall_mem_flatMap.mpr fun _ _ => annotated_record _ _ _

theorem annotated_signalStates :
    ∀ l ∈ signalStates tables, l.Annotated ends .python tables := by
  refine List.forall_mem_append.mpr ⟨annotated_of_bare ?_, annotated_rows fun set _ => ?_⟩
  · exact List.forall_mem_cons.mpr
      ⟨rfl, List.forall_mem_cons.mpr ⟨rfl, List.forall_mem_singleton.mpr rfl⟩⟩
  · refine List.forall_mem_flatMap.mpr fun states _ => annotated_of_bare
      (List.forall_mem_append.mpr ⟨List.forall_mem_append.mpr ⟨?_, ?_⟩, ?_⟩)
    · exact List.forall_mem_singleton.mpr rfl
    · exact List.forall_mem_map.mpr fun _ _ => rfl
    · exact List.forall_mem_cons.mpr ⟨rfl, List.forall_mem_singleton.mpr rfl⟩

theorem annotated_hookFunction (name : String) (hooks : SetTables → List String) :
    ∀ l ∈ hookFunction name tables hooks, l.Annotated ends .python tables := by
  refine List.forall_mem_append.mpr ⟨List.forall_mem_append.mpr
    ⟨List.forall_mem_append.mpr ⟨?_, ?_⟩, ?_⟩, ?_⟩
  · exact List.forall_mem_singleton.mpr (annotated_bare _)
  · split
    · exact List.forall_mem_singleton.mpr (annotated_bare _)
    · exact List.forall_mem_nil _
  · refine List.forall_mem_flatMap.mpr fun set hset => List.forall_mem_cons.mpr ⟨?_, ?_⟩
    · have hcode : Quoteless ("    if message_set_index == " ++ number set.index ++ ":") :=
        Quoteless.append (Quoteless.append (by decide) (.number _)) (by decide)
      exact annotated_noted hcode (setNote_mem hset)
    · split
      · exact List.forall_mem_singleton.mpr (annotated_bare _)
      · exact List.forall_mem_map.mpr fun _ _ => annotated_bare _
  · exact List.forall_mem_singleton.mpr (annotated_bare _)

theorem annotated_sectionList (tables : Tables) :
    ∀ lines ∈ sectionList, ∀ l ∈ lines tables, l.Annotated ends .python tables := by
  have hheader : ∀ (a b : Line), a.comment = none → b.comment = none →
      ∀ l ∈ [a, b], l.comment = none := fun a b ha hb =>
    List.forall_mem_cons.mpr ⟨ha, List.forall_mem_singleton.mpr hb⟩
  simp only [sectionList, List.forall_mem_cons]
  exact ⟨annotated_of_bare (hheader _ _ rfl rfl), annotated_messageSets,
    annotated_records (hheader _ _ rfl rfl) _ _ SetTables.buses _,
    annotated_records (hheader _ _ rfl rfl) _ _ SetTables.messages _, annotated_signalStates,
    annotated_records (List.forall_mem_singleton.mpr rfl) _ _ SetTables.signals _,
    annotated_hookFunction _ _, annotated_hookFunction _ _,
    annotated_records (hheader _ _ rfl rfl) _ _ SetTables.commands _,
    annotated_records (hheader _ _ rfl rfl) _ _ SetTables.requests _, List.forall_mem_nil _⟩

end Script

/-- Every comment in a section says no more than a name. -/
theorem annotated (lineEnd : LineEnd ends) (tables : Tables) :
    ∀ lines ∈ sectionsOf target, ∀ l ∈ lines tables, l.Annotated ends target tables := by
  cases target with
  | cpp => exact Firmware.annotated_sectionList lineEnd tables
  | python => exact Script.annotated_sectionList tables

/-- Names that end no line give comments that end none. -/
theorem noBreak_of_unbroken (lineEnd : LineEnd ends) (h : ∀ name ∈ tables.names, Unbroken ends name) :
    ∀ lines ∈ sectionsOf target, ∀ l ∈ lines tables, l.NoBreak ends :=
  fun lines hlines l hl note hnote =>
    ((annotated lineEnd tables lines hlines l hl).note note hnote).unbroken lineEnd h

theorem sum_noteBreaks {lines : List Line} (h : ∀ l ∈ lines, l.NoBreak ends) :
    (lines.map (Line.noteBreaks ends)).sum = 0 := by
  refine List.sum_eq_zero_iff_forall_eq_nat.mpr (List.forall_mem_map.mpr fun l hl => ?_)
  rw [Line.noteBreaks, List.countP_eq_zero]
  intro c hc
  cases hcomment : l.comment with
  | none =>
    rw [hcomment] at hc
    exact absurd hc List.not_mem_nil
  | some note =>
    rw [hcomment] at hc
    exact Bool.eq_false_iff.mp (h l hl note hcomment c hc)

/-! ## Backslashes -/

theorem endsInBackslash_append {before : String} (hbefore : ¬ EndsInBackslash before)
    (text : String) : EndsInBackslash (before ++ text) ↔ EndsInBackslash text := by
  rw [EndsInBackslash, String.toList_append, List.getLast?_append, Option.or_eq_some_iff]
  exact ⟨fun h => h.resolve_right fun hempty => hbefore hempty.2, .inl⟩

/-- A line with a comment ends in a backslash if the comment does. -/
theorem endsInBackslash_render (code note : String) :
    EndsInBackslash ((Line.noted code note).render (separatorOf .cpp)) ↔ EndsInBackslash note := by
  show EndsInBackslash (code ++ " // " ++ note) ↔ _
  refine endsInBackslash_append ?_ note
  rw [EndsInBackslash, String.toList_append, List.getLast?_append]
  exact nofun

theorem Note.endsInBackslash {names : List String} {note : String} (hnote : Note names note)
    (h : EndsInBackslash note) : ∃ name ∈ names, EndsInBackslash name := by
  cases hnote with
  | empty => exact absurd h (by decide)
  | endif => exact absurd h (by decide)
  | name hname => exact ⟨_, hname, h⟩
  | set hname => exact ⟨_, hname, (endsInBackslash_append (by decide) _).mp h⟩

/-- A comment that ends in a backslash comes of a name that does, and every name has a comment. -/
theorem exists_endsInBackslash_iff (lineEnd : LineEnd ends) (tables : Tables) :
    (∃ lines ∈ sectionsOf .cpp, ∃ l ∈ lines tables, l.comment ≠ none ∧
      EndsInBackslash (l.render (separatorOf .cpp))) ↔
    ∃ name ∈ tables.names, EndsInBackslash name := by
  constructor
  · rintro ⟨lines, hlines, ⟨code, comment⟩, hl, hcomment, hend⟩
    obtain ⟨note, rfl⟩ := Option.ne_none_iff_exists'.mp hcomment
    have hnote := (annotated lineEnd tables lines hlines _ hl).note note rfl
    exact hnote.endsInBackslash ((endsInBackslash_render code note).mp hend)
  · rintro ⟨name, hname, hend⟩
    obtain ⟨set, hset, hname⟩ := List.mem_flatMap.mp hname
    have hcomment : ∀ lines ∈ Firmware.sectionList, ∀ {code note : String},
        Line.noted code note ∈ lines tables → EndsInBackslash note →
          ∃ lines ∈ sectionsOf .cpp, ∃ l ∈ lines tables, l.comment ≠ none ∧
            EndsInBackslash (l.render (separatorOf .cpp)) :=
      fun lines hlines code note hl hnote => ⟨lines, hlines, _, hl, nofun,
        (endsInBackslash_render code note).mpr hnote⟩
    have hmessages : Firmware.messages ∈ Firmware.sectionList := by
      simp only [Firmware.sectionList, List.mem_cons, true_or, or_true]
    have hsignals : Firmware.signals ∈ Firmware.sectionList := by
      simp only [Firmware.sectionList, List.mem_cons, true_or, or_true]
    -- A set is named above its signals, a message and a signal behind their rows.
    rcases List.mem_cons.mp hname with rfl | hname
    · refine hcomment _ hsignals (Firmware.mem_array hset List.mem_cons_self) ?_
      exact (endsInBackslash_append (by decide) _).mpr hend
    rcases List.mem_append.mp hname with hname | hname
    · obtain ⟨row, hrow, rfl⟩ := List.mem_map.mp hname
      exact hcomment _ hmessages (List.mem_cons_of_mem _ (Firmware.mem_array hset
        (List.mem_cons_of_mem _ (List.mem_map_of_mem hrow)))) hend
    · obtain ⟨row, hrow, rfl⟩ := List.mem_map.mp hname
      exact hcomment _ hsignals (Firmware.mem_array hset
        (List.mem_cons_of_mem _ (List.mem_map_of_mem hrow))) hend

/-! ## Sections -/

/-- Tables that are the same but for names.  The numbers of lines that a section has differ by the
line ends in its comments only; if there is no line end in a name, the section has as many lines for
both, and the same code parts.  There is a comment that ends in a backslash exactly if there is such a
name. -/
theorem codeParts_sectionsOf (lineEnd : LineEnd ends) (target : Target) {tables tables' : Tables}
    (same : tables.anonymous = tables'.anonymous) :
    (∀ lines ∈ sectionsOf target,
      (codeParts ends target (textOf target (lines tables))).length +
          ((lines tables').map (Line.noteBreaks ends)).sum =
        (codeParts ends target (textOf target (lines tables'))).length +
          ((lines tables).map (Line.noteBreaks ends)).sum ∧
      ((∀ name ∈ tables.names ++ tables'.names, Unbroken ends name) →
        (codeParts ends target (textOf target (lines tables))).length =
            (codeParts ends target (textOf target (lines tables'))).length ∧
          ((target = .cpp → tables.QuotelessFunctions) →
            codeParts ends target (textOf target (lines tables)) =
              codeParts ends target (textOf target (lines tables'))))) ∧
    ((∃ lines ∈ sectionsOf .cpp, ∃ l ∈ lines tables, l.comment ≠ none ∧
        EndsInBackslash (l.render (separatorOf .cpp))) ↔
      ∃ name ∈ tables.names, EndsInBackslash name) := by
  refine ⟨fun lines hlines => ?_, exists_endsInBackslash_iff lineEnd tables⟩
  -- Both sections have the outline of the section without names.
  have houtline : (lines tables).map (Line.outline ends target) =
      (lines tables').map (Line.outline ends target) := by
    rw [← outline_anonymous lineEnd tables lines hlines, same,
      outline_anonymous lineEnd tables' lines hlines]
  have hlength := length_codeParts_textOf lineEnd houtline
  refine ⟨hlength, fun hnames => ?_⟩
  obtain ⟨hnames, hnames'⟩ := List.forall_mem_append.mp hnames
  have hbreak := noBreak_of_unbroken lineEnd hnames lines hlines
  have hbreak' := noBreak_of_unbroken lineEnd hnames' lines hlines
  refine ⟨?_, fun hfunctions => ?_⟩
  · rwa [sum_noteBreaks hbreak, sum_noteBreaks hbreak'] at hlength
  · exact codeParts_textOf_congr lineEnd
      (fun l hl => (annotated lineEnd tables lines hlines l hl).closed hfunctions) hbreak hbreak'
      houtline

/-! ## One signal -/

/-- Where only a line feed ends a line. -/
theorem lineEnd_feed : LineEnd (· == '\n') :=
  ⟨rfl, fun c h => .inl (eq_of_beq h ▸ by decide)⟩

/-- Tables of one set with one message and one signal, given their names. -/
def oneSignal (set message signal : String) : Tables where
  sets := [{
    index := 0
    name := set
    buses := []
    messages := [{
      ref := ⟨0⟩
      message := ⟨0x10, some message, none, none, true, none, none, none, false, false, [], [⟨0⟩]⟩
      busIndex := 0
      maxFrequency := .zero _ false
      signals := [0] }]
    signals := [{
      ref := ⟨0⟩
      signal := ⟨⟨0⟩, signal, signal, some 0, some 8, .zero _ false, .zero _ false, .zero _ false,
        .zero _ false, true, false, none, true, none, none, false, none, none, []⟩
      messageIndex := 0
      bitPosition := 0
      bitSize := 8
      maxFrequency := .zero _ false
      forceSendChanged := false
      states := none }]
    commands := []
    requests := []
    initializers := []
    loopers := []
    extraSources := [] }]
  tally := .zero

/-- Comment marks and quotes in names do no harm; a backslash at the end of one ends a comment. -/
theorem codeParts_sectionsOf_oneSignal :
    LineEnd (· == '\n') ∧
    (oneSignal "// car" "\"engine" "speed \\").anonymous = (oneSignal "" "" "").anonymous ∧
    (∀ lines ∈ sectionsOf .cpp,
      codeParts (· == '\n') .cpp (textOf .cpp (lines (oneSignal "// car" "\"engine" "speed \\"))) =
        codeParts (· == '\n') .cpp (textOf .cpp (lines (oneSignal "" "" "")))) ∧
    ∃ lines ∈ sectionsOf .cpp, ∃ l ∈ lines (oneSignal "// car" "\"engine" "speed \\"),
      l.comment ≠ none ∧ EndsInBackslash (l.render (separatorOf .cpp)) := by
  have same : (oneSignal "// car" "\"engine" "speed \\").anonymous =
      (oneSignal "" "" "").anonymous := rfl
  have h := codeParts_sectionsOf lineEnd_feed .cpp same
  refine ⟨lineEnd_feed, same, fun lines hlines => ?_, ?_⟩
  · refine ((h.1 lines hlines).2 ?_).2 fun _ => ?_
    · decide
    · unfold Tables.QuotelessFunctions
      decide
  · exact h.2.mpr ⟨"speed \\", by decide, by decide⟩

/-- A line feed in the name of a message gives the section of the messages one more line. -/
theorem not_forall_codeParts_sectionsOf :
    ¬ ∀ tables tables' : Tables, tables.anonymous = tables'.anonymous →
      (∀ target, ∀ lines ∈ sectionsOf target,
        (codeParts (· == '\n') target (textOf target (lines tables))).length =
            (codeParts (· == '\n') target (textOf target (lines tables'))).length ∧
          codeParts (· == '\n') target (textOf target (lines tables)) =
            codeParts (· == '\n') target (textOf target (lines tables'))) ∧
      ∀ lines ∈ sectionsOf .cpp, ∀ l ∈ lines tables, l.comment ≠ none →
        ¬ EndsInBackslash (l.render (separatorOf .cpp)) := by
  intro h
  have hmessages : Firmware.messages ∈ sectionsOf .cpp := by
    simp only [sectionsOf, Firmware.sectionList, List.mem_cons, true_or, or_true]
  have hlength := ((h (oneSignal "car" "engine\nspeed" "rpm") (oneSignal "car" "engine" "rpm")
    rfl).1 .cpp Firmware.messages hmessages).1
  have houtline : (Firmware.messages (oneSignal "car" "engine\nspeed" "rpm")).map
      (Line.outline (· == '\n') .cpp) =
        (Firmware.messages (oneSignal "car" "engine" "rpm")).map (Line.outline (· == '\n') .cpp) :=
    (Firmware.messages_anonymous _).symm.trans (Firmware.messages_anonymous _)
  have hbreaks := length_codeParts_textOf lineEnd_feed houtline
  have hone : ((Firmware.messages (oneSignal "car" "engine\nspeed" "rpm")).map
      (Line.noteBreaks (· == '\n'))).sum = 1 := by decide
  have hnone : ((Firmware.messages (oneSignal "car" "engine" "rpm")).map
      (Line.noteBreaks (· == '\n'))).sum = 0 := by decide
  omega

end Emit

end CanTables
