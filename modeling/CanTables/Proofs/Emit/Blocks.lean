import CanTables.Emit.Firmware
import CanTables.Proofs.Emit.Sections
import Mathlib.Data.List.Infix

/-!
# CanTables.Proofs.Emit.Blocks — the decoder read back

The decoder is emitted as lines, and what it does lies in the labels of its cases and in what stands
under them.  `blocks` reads lines back: a case is a label at some indentation with the lines up to
the `break` behind it, a section between these two.  Three indentations give the cases of the sets,
of the buses in a set and of the messages on a bus, and what was emitted for each is read back from
its case (`blocks_decoder`, `blocks_setBody`, `blocks_busBody`).

All lines in a case are indented further than its label (`Inside`), so no name of a handler can make
a line look like a label or like the end of a case.  That is said of lines as they are emitted, one
`Line` each.  Once they are put together to a text, a handler or a name in a comment that holds a
line end is more than one line of that text; what names in comments then do to lines and code is the
subject of `codeParts_sectionsOf`.
-/

namespace CanTables.Emit

open Line

/-! ## Cases -/

/-- A line is the label of a case at an indentation. -/
def opens (indent : String) (l : Line) : Bool := (indent ++ "case ").toList.isPrefixOf l.code.toList

/-- A line ends a case at an indentation. -/
def closes (indent : String) (l : Line) : Bool := l.code == indent ++ "    break;"

/-- The cases at an indentation: their labels, each with the lines up to the end of its case. -/
def blocks (indent : String) : List Line → List (Line × List Line)
  | [] => []
  | l :: rest =>
    if opens indent l then
      (l, rest.takeWhile fun inner => !closes indent inner) :: blocks indent rest
    else blocks indent rest

/-- A line is indented further than a label and does not end the case. -/
def Inside (indent : String) (l : Line) : Prop :=
  ∃ rest, l.code = indent ++ "    " ++ rest ∧ rest ≠ "break;"

variable {indent : String}

theorem opens_of_literal {literal rest : String} {l : Line} (h : l.code = literal ++ rest)
    (hliteral : literal = indent ++ "case ") : opens indent l = true := by
  rw [opens, h, hliteral, List.isPrefixOf_iff_prefix, String.toList_append (t := rest)]
  exact List.prefix_append _ _

theorem opens_eq_false {rest : String} {l : Line} (h : l.code = indent ++ "    " ++ rest) :
    opens indent l = false := by
  rw [opens, h, ← Bool.not_eq_true, List.isPrefixOf_iff_prefix, String.append_assoc,
    String.toList_append, String.toList_append, List.prefix_append_right_inj, String.toList_append]
  intro hprefix
  have hhead := (List.cons_prefix_cons.mp hprefix).1
  exact absurd hhead (by decide)

theorem Inside.opens {l : Line} (h : Inside indent l) : opens indent l = false := by
  obtain ⟨rest, hcode, -⟩ := h
  exact opens_eq_false hcode

theorem Inside.closes {l : Line} (h : Inside indent l) : closes indent l = false := by
  obtain ⟨rest, hcode, hne⟩ := h
  rw [Emit.closes, hcode, beq_eq_false_iff_ne]
  intro heq
  have hbreak : indent ++ "    " ++ rest = indent ++ "    " ++ "break;" := by
    rw [heq, String.append_assoc]
    rfl
  exact hne ((String.append_right_inj _).mp hbreak)

/-- What is indented further still is inside. -/
theorem Inside.of_indented {l : Line} (h : Inside (indent ++ "    ") l) : Inside indent l := by
  obtain ⟨rest, hcode, -⟩ := h
  refine ⟨"    " ++ rest, hcode.trans String.append_assoc, fun heq => ?_⟩
  have hlist := congrArg String.toList heq
  rw [String.toList_append] at hlist
  have hhead := (List.cons.inj hlist).1
  exact absurd hhead (by decide)

/-! ## Reading cases back -/

theorem blocks_eq_sections (lines : List Line) :
    blocks indent lines = sections (opens indent) (closes indent) lines := by
  induction lines with
  | nil => rfl
  | cons l rest ih => rw [blocks, sections, ih]

/-- Cases that were emitted one after the other are read back one after the other. -/
theorem blocks_flatMap {α : Type} {xs : List α} {label : α → Line} {body : α → List Line}
    {finish : Line} (hlabel : ∀ x, opens indent (label x) = true)
    (hbody : ∀ x, ∀ l ∈ body x, Inside indent l) (hfinish : finish.code = indent ++ "    break;")
    {before after : List Line} (hbefore : ∀ l ∈ before, opens indent l = false)
    (hafter : ∀ l ∈ after, opens indent l = false) :
    blocks indent (before ++ xs.flatMap (fun x => label x :: (body x ++ [finish])) ++ after) =
      xs.map fun x => (label x, body x) := by
  have hcode : finish.code = indent ++ "    " ++ "break;" := by
    rw [hfinish, String.append_assoc]
    rfl
  rw [blocks_eq_sections]
  refine sections_flatMap hlabel (fun x l hl => ⟨(hbody x l hl).opens, (hbody x l hl).closes⟩)
    ⟨opens_eq_false hcode, ?_⟩ hbefore hafter
  rw [closes, hfinish, beq_self_eq_true]

/-! ## Lines of the decoder -/

/-- A line of a literal text, which shows how far the line is indented, and something behind. -/
theorem inside_of_literal (shown : String) {literal rest : String} {l : Line}
    (h : l.code = literal ++ rest)
    (hliteral : literal = indent ++ "    " ++ shown) (hne : shown ++ rest ≠ "break;") :
    Inside indent l :=
  ⟨shown ++ rest, by rw [h, hliteral, String.append_assoc], hne⟩

theorem append_ne_break {shown : String} (h : shown.toList.head? ≠ some 'b')
    (hne : shown.toList ≠ []) (rest : String) : shown ++ rest ≠ "break;" := by
  intro heq
  have hlist := congrArg (List.head? ∘ String.toList) heq
  rw [Function.comp_apply, Function.comp_apply, String.toList_append,
    List.head?_append_of_ne_nil _ hne] at hlist
  exact h hlist

namespace Firmware

/-- The label of the case of a set. -/
def setLabel (t : SetTables) : Line := noted ("    case " ++ number t.index ++ ":") (setNote t)

/-- The label of the case of a bus. -/
def busLabel (controller : UInt8) : Line := bare ("        case " ++ number controller.toNat ++ ":")

/-- The label of the case of a message, without the comment. -/
def caseCode (id : UInt32) : String := "            case " ++ hex id ++ ":"

/-- The label of the case of a message. -/
def caseLabel (id : UInt32) (label : String) : Line := noted (caseCode id) label

/-- The call that decodes a signal of a set. -/
def callLine (set signalIndex : Nat) (name : String) : Line :=
  noted
    ("                can::read::translateSignal(&" ++ element "SIGNALS" set signalIndex ++ ", " ++
      decoderArguments set)
    name

/-- The call of a handler. -/
def handlerLine (set : Nat) (handler : String) : Line :=
  bare ("                " ++ handler ++ "(id, " ++ decoderArguments set)

/-- What stands in the case of a message. -/
def caseBody (set : Nat) (branch : MessageBranch) : List Line :=
  branch.handlers.map (handlerLine set) ++
    branch.signalCalls.map fun call => callLine set call.signalIndex call.name

/-- What stands in the case of a bus. -/
def busBody (set : Nat) (branch : BusBranch) : List Line :=
  [bare "            switch (id) \x7b"] ++
    branch.messages.flatMap (messageBranchLines set) ++
    [bare "            \x7d"] ++
    (if branch.passesRaw then
      [bare ("            can::read::passthroughMessage(bus, id, data, getMessages(), " ++
        "getMessageCount(), pipeline);")]
    else [])

/-- What stands in the case of a set. -/
def setBody (t : SetTables) : List Line :=
  [bare "        switch(bus->address) \x7b"] ++
    (dispatch t).flatMap (busBranchLines t.index) ++ [bare "        \x7d"]

theorem code_setLabel (t : SetTables) :
    (setLabel t).code = "    case " ++ (number t.index ++ ":") := by
  simp only [setLabel, noted, String.append_assoc]

theorem code_busLabel (controller : UInt8) :
    (busLabel controller).code = "        case " ++ (number controller.toNat ++ ":") := by
  simp only [busLabel, bare, String.append_assoc]

theorem code_caseLabel (id : UInt32) (label : String) :
    (caseLabel id label).code = "            case " ++ (hex id ++ ":") :=
  String.append_assoc

theorem code_callLine (set signalIndex : Nat) (name : String) :
    (callLine set signalIndex name).code = "                can::read::translateSignal(&" ++
      (element "SIGNALS" set signalIndex ++ (", " ++ decoderArguments set)) := by
  simp only [callLine, noted, String.append_assoc]

theorem messageBranchLines_eq (set : Nat) (branch : MessageBranch) :
    messageBranchLines set branch = caseLabel branch.id branch.label ::
      (caseBody set branch ++ [bare "                break;"]) := by
  simp only [messageBranchLines, caseBody, List.append_assoc]
  rfl

theorem busBranchLines_eq (set : Nat) (branch : BusBranch) :
    busBranchLines set branch = busLabel branch.controller ::
      (busBody set branch ++ [bare "            break;"]) := by
  simp only [busBranchLines, busBody, List.append_assoc]
  rfl

theorem decoder_eq (tables : Tables) : decoder tables =
    [bare ("void openxc::signals::decodeCanMessage(Pipeline* pipeline, CanBus* bus, int id, " ++
      "uint64_t data) \x7b"), bare "    switch(getConfiguration()->messageSetIndex) \x7b"] ++
      tables.sets.flatMap (fun t => setLabel t :: (setBody t ++ [bare "        break;"])) ++
      [bare "    \x7d", bare "\x7d", blank] := by
  simp only [decoder, branches, setBody, List.append_assoc]
  rfl

/-! ## What is inside a case -/

theorem inside_caseBody (set : Nat) (branch : MessageBranch) :
    ∀ l ∈ caseBody set branch, Inside "            " l := by
  refine List.forall_mem_append.mpr ⟨List.forall_mem_map.mpr fun handler _ => ?_,
    List.forall_mem_map.mpr fun call _ => ?_⟩
  · -- No handler makes the call of it an end of the case: it has a bracket.
    have hcode : (handlerLine set handler).code =
        "                " ++ (handler ++ ("(id, " ++ decoderArguments set)) := by
      simp only [handlerLine, bare, String.append_assoc]
    refine inside_of_literal "" hcode rfl fun heq => ?_
    have hmem : '(' ∈ "break;".toList := by
      rw [← heq]
      simp
    exact absurd hmem (by decide)
  · exact inside_of_literal "can::read::translateSignal(&" (code_callLine _ _ _) rfl
      (append_ne_break (by decide) (by decide) _)

theorem inside_messageBranchLines (set : Nat) (branch : MessageBranch) :
    ∀ l ∈ messageBranchLines set branch, Inside "        " l := by
  rw [messageBranchLines_eq]
  refine List.forall_mem_cons.mpr ⟨?_, List.forall_mem_append.mpr ⟨fun l hl => ?_, ?_⟩⟩
  · exact inside_of_literal "case " (code_caseLabel _ _) rfl
      (append_ne_break (by decide) (by decide) _)
  · exact Inside.of_indented (inside_caseBody set branch l hl)
  · exact List.forall_mem_singleton.mpr ⟨"    break;", rfl, by decide⟩

theorem inside_busBody (set : Nat) (branch : BusBranch) :
    ∀ l ∈ busBody set branch, Inside "        " l := by
  have hpassed : ∀ l ∈ (if branch.passesRaw then
      [bare ("            can::read::passthroughMessage(bus, id, data, getMessages(), " ++
        "getMessageCount(), pipeline);")] else []), Inside "        " l := by
    split
    · exact List.forall_mem_singleton.mpr ⟨"can::read::passthroughMessage(bus, id, data, " ++
        "getMessages(), getMessageCount(), pipeline);", rfl, by decide⟩
    · exact fun l hl => absurd hl List.not_mem_nil
  refine List.forall_mem_append.mpr ⟨List.forall_mem_append.mpr ⟨List.forall_mem_append.mpr
    ⟨?_, List.forall_mem_flatMap.mpr fun m _ => inside_messageBranchLines set m⟩, ?_⟩, hpassed⟩
  · exact List.forall_mem_singleton.mpr ⟨"switch (id) \x7b", rfl, by decide⟩
  · exact List.forall_mem_singleton.mpr ⟨"\x7d", rfl, by decide⟩

theorem inside_busBranchLines (set : Nat) (branch : BusBranch) :
    ∀ l ∈ busBranchLines set branch, Inside "    " l := by
  rw [busBranchLines_eq]
  refine List.forall_mem_cons.mpr ⟨?_, List.forall_mem_append.mpr ⟨fun l hl => ?_, ?_⟩⟩
  · exact inside_of_literal "case " (code_busLabel _) rfl
      (append_ne_break (by decide) (by decide) _)
  · exact Inside.of_indented (inside_busBody set branch l hl)
  · exact List.forall_mem_singleton.mpr ⟨"    break;", rfl, by decide⟩

theorem inside_setBody (t : SetTables) : ∀ l ∈ setBody t, Inside "    " l := by
  refine List.forall_mem_append.mpr ⟨List.forall_mem_append.mpr
    ⟨?_, List.forall_mem_flatMap.mpr fun b _ => inside_busBranchLines t.index b⟩, ?_⟩
  · exact List.forall_mem_singleton.mpr ⟨"switch(bus->address) \x7b", rfl, by decide⟩
  · exact List.forall_mem_singleton.mpr ⟨"\x7d", rfl, by decide⟩

/-! ## Reading the decoder back -/

/-- The cases of the decoder are those of the sets. -/
theorem blocks_decoder (tables : Tables) :
    blocks "    " (decoder tables) = tables.sets.map fun t => (setLabel t, setBody t) := by
  rw [decoder_eq]
  exact blocks_flatMap (fun t => opens_of_literal (code_setLabel t) rfl) inside_setBody rfl
    (by decide) (by decide)

/-- The cases of a set are those of its buses. -/
theorem blocks_setBody (t : SetTables) : blocks "        " (setBody t) =
    (dispatch t).map fun branch => (busLabel branch.controller, busBody t.index branch) := by
  rw [setBody, List.flatMap_congr fun branch _ => busBranchLines_eq t.index branch]
  exact blocks_flatMap (fun _ => opens_of_literal (code_busLabel _) rfl) (inside_busBody t.index)
    rfl (by decide) (by decide)

/-- The cases of a bus are those of its messages. -/
theorem blocks_busBody (set : Nat) (branch : BusBranch) :
    blocks "            " (busBody set branch) =
      branch.messages.map fun m => (caseLabel m.id m.label, caseBody set m) := by
  rw [busBody, List.flatMap_congr fun m _ => messageBranchLines_eq set m, List.append_assoc]
  refine blocks_flatMap (fun _ => opens_of_literal (code_caseLabel _ _) rfl) (inside_caseBody set)
    rfl (by decide) ?_
  split <;> decide

/-! ## Calls -/

/-- A line calls for a signal to be decoded.  Handlers are called on lines without a comment. -/
def isCall (l : Line) : Bool :=
  l.comment.isSome && "                can::read::translateSignal(".toList.isPrefixOf l.code.toList

/-- The calls among lines, in order. -/
def calls (lines : List Line) : List Line := lines.filter isCall

theorem isCall_callLine (set signalIndex : Nat) (name : String) :
    isCall (callLine set signalIndex name) = true := by
  rw [isCall, code_callLine, String.toList_append]
  rfl

theorem isCall_caseLabel (id : UInt32) (label : String) : isCall (caseLabel id label) = false := by
  rw [isCall, code_caseLabel, String.toList_append]
  rfl

theorem calls_append (lines lines' : List Line) :
    calls (lines ++ lines') = calls lines ++ calls lines' := List.filter_append ..

theorem calls_flatMap {α : Type} (xs : List α) (f : α → List Line) :
    calls (xs.flatMap f) = xs.flatMap fun x => calls (f x) := List.filter_flatMap ..

theorem calls_of_bare {lines : List Line} (h : ∀ l ∈ lines, l.comment = none) :
    calls lines = [] := by
  refine List.filter_eq_nil_iff.mpr fun l hl => ?_
  rw [isCall, h l hl]
  exact Bool.false_ne_true

theorem calls_caseBody (set : Nat) (branch : MessageBranch) : calls (caseBody set branch) =
    branch.signalCalls.map fun call => callLine set call.signalIndex call.name := by
  rw [caseBody, calls_append, calls_of_bare (List.forall_mem_map.mpr fun _ _ => rfl),
    List.nil_append]
  exact List.filter_eq_self.mpr (List.forall_mem_map.mpr fun _ _ => isCall_callLine _ _ _)

theorem calls_messageBranchLines (set : Nat) (branch : MessageBranch) :
    calls (messageBranchLines set branch) = calls (caseBody set branch) := by
  have hlabel : calls [caseLabel branch.id branch.label] = [] := by
    rw [calls, List.filter_singleton, isCall_caseLabel]
    rfl
  rw [messageBranchLines_eq, ← List.singleton_append, calls_append, calls_append, hlabel,
    calls_of_bare (List.forall_mem_singleton.mpr rfl), List.nil_append, List.append_nil]

theorem calls_busBranchLines (set : Nat) (branch : BusBranch) :
    calls (busBranchLines set branch) =
      branch.messages.flatMap fun m => calls (caseBody set m) := by
  have hpassed : calls (if branch.passesRaw then
      [bare ("            can::read::passthroughMessage(bus, id, data, getMessages(), " ++
        "getMessageCount(), pipeline);")] else []) = [] := by
    split <;> rfl
  rw [busBranchLines, calls_append, calls_append, calls_append, calls_append, calls_flatMap,
    hpassed, List.flatMap_congr fun m _ => calls_messageBranchLines set m]
  exact (List.append_nil _).trans ((List.append_nil _).trans (List.append_nil _))

/-- Where a call stands: in the case of which bus, by its position and by its label, and under which
label in that case. -/
structure CallPlace where
  bus : Nat
  busLine : Line
  caseLine : Line
  call : Line

/-- The calls in the case of a set, in order, with the places where they stand. -/
def callPlaces (body : List Line) : List CallPlace :=
  (blocks "        " body).zipIdx.flatMap fun busCase =>
    (blocks "            " busCase.1.2).flatMap fun messageCase =>
      (calls messageCase.2).map fun call => ⟨busCase.2, busCase.1.1, messageCase.1, call⟩

theorem callPlaces_setBody (t : SetTables) : callPlaces (setBody t) =
    (dispatch t).zipIdx.flatMap fun entry => entry.1.messages.flatMap fun m =>
      m.signalCalls.map fun call =>
        ⟨entry.2, busLabel entry.1.controller, caseLabel m.id m.label,
          callLine t.index call.signalIndex call.name⟩ := by
  simp only [callPlaces, blocks_setBody, List.zipIdx_map, List.flatMap_map, Prod.map_fst,
    Prod.map_snd, blocks_busBody, calls_caseBody, List.map_map, Function.comp_def, id]

/-- No call stands outside the cases of messages. -/
theorem calls_setBody (t : SetTables) :
    calls (setBody t) = (callPlaces (setBody t)).map (·.call) := by
  have hplaces : (callPlaces (setBody t)).map (·.call) =
      ((dispatch t).zipIdx.map Prod.fst).flatMap fun branch =>
        branch.messages.flatMap fun m => calls (caseBody t.index m) := by
    simp only [callPlaces_setBody, List.map_flatMap, List.map_map, List.flatMap_map, calls_caseBody,
      Function.comp_def]
  rw [hplaces, List.zipIdx_map_fst, setBody, calls_append, calls_append, calls_flatMap,
    List.flatMap_congr fun branch _ => calls_busBranchLines t.index branch]
  exact List.append_nil _

end Firmware

end CanTables.Emit
