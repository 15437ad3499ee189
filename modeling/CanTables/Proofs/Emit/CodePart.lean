import CanTables.Compile
import CanTables.Proofs.Text.Literal

/-!
# CanTables.Proofs.Emit.CodePart — what a compiler sees of a line

A line of source is code up to a comment; of a string literal in the code only the quotes are kept
here.  `codeParts` divides a text into lines and each line into code and comment, the way a compiler
does, without knowing how the text was put together.

What comes in between does not matter in two cases: a quoted text leaves the same behind whatever
was quoted (`Cursor.foldl_quote`), and a comment leaves nothing behind unless it breaks the line
(`Line.codeParts_render`).

Which characters end a line is left open: a line feed does, and any other control characters may.
-/

namespace CanTables.Emit

open Text

/-- What separates a comment from the code in front of it. -/
def separatorOf : Target → String → String
  | .cpp => Firmware.separator
  | .python => Script.separator

/-- The characters that end a line: a line feed does, and only control characters do. -/
structure LineEnd (ends : Char → Bool) : Prop where
  feed : ends '\n' = true
  control : ∀ c, ends c = true → c.toNat < 0x20 ∨ c.toNat = 0x7F

/-! ## Reading a line -/

/-- Where a reader of a line stands. -/
inductive Mode where
  | code
  /-- Behind a slash, which is code unless another one follows. -/
  | slash
  /-- In a literal between quotes of this kind. -/
  | literal (quote : Char)
  /-- Behind a backslash in such a literal. -/
  | escaped (quote : Char)
  | comment
  deriving DecidableEq, Repr

/-- A literal has begun and not ended. -/
def Mode.inLiteral : Mode → Bool
  | literal _ => true
  | escaped _ => true
  | _ => false

/-- How far a line has been read: where the reader stands, and the code so far, in which nothing is
left of a literal but its quotes. -/
structure Cursor where
  mode : Mode
  code : List Char
  deriving DecidableEq, Repr

namespace Cursor

/-- At the beginning of a line. -/
def start : Cursor := ⟨.code, []⟩

/-- A character of code: it may begin a literal or a comment. -/
def enter (target : Target) (code : List Char) (c : Char) : Cursor :=
  if c = '"' ∨ c = '\'' then ⟨.literal c, code ++ [c]⟩
  else
    match target with
    | .cpp => if c = '/' then ⟨.slash, code⟩ else ⟨.code, code ++ [c]⟩
    | .python => if c = '#' then ⟨.comment, code⟩ else ⟨.code, code ++ [c]⟩

/-- One more character of the line. -/
def step (target : Target) (k : Cursor) (c : Char) : Cursor :=
  match k.mode with
  | .code => enter target k.code c
  | .slash => if c = '/' then ⟨.comment, k.code⟩ else enter target (k.code ++ ['/']) c
  | .literal quote =>
    if c = quote then ⟨.code, k.code ++ [c]⟩
    else if c = '\\' then ⟨.escaped quote, k.code⟩
    else k
  | .escaped quote => ⟨.literal quote, k.code⟩
  | .comment => k

/-- The code part of the line if it ends here. -/
def codePart (k : Cursor) : List Char :=
  match k.mode with
  | .slash => k.code ++ ['/']
  | _ => k.code

/-- Reads a text: the code parts of the lines that end in it, and how far the last line is read. -/
def read (ends : Char → Bool) (target : Target) (k : Cursor) :
    List Char → List (List Char) × Cursor
  | [] => ([], k)
  | c :: rest =>
    if ends c then (k.codePart :: (read ends target start rest).1, (read ends target start rest).2)
    else read ends target (k.step target c) rest

end Cursor

/-- The code parts of the lines of a text.  A text has one more line than it has line ends. -/
def codeParts (ends : Char → Bool) (target : Target) (text : String) : List (List Char) :=
  (Cursor.read ends target .start text.toList).1 ++
    [(Cursor.read ends target .start text.toList).2.codePart]

namespace Cursor

variable {ends : Char → Bool} {target : Target} {k : Cursor}

theorem read_append (k : Cursor) (cs rest : List Char) :
    read ends target k (cs ++ rest) =
      ((read ends target k cs).1 ++ (read ends target (read ends target k cs).2 rest).1,
        (read ends target (read ends target k cs).2 rest).2) := by
  induction cs generalizing k with
  | nil => rfl
  | cons c cs ih =>
    rw [List.cons_append, read, read]
    split
    · rw [ih]
      rfl
    · exact ih _

/-- Within a line reading goes character by character. -/
theorem read_of_forall {cs : List Char} (h : ∀ c ∈ cs, ends c = false) (k : Cursor) :
    read ends target k cs = ([], cs.foldl (step target) k) := by
  induction cs generalizing k with
  | nil => rfl
  | cons c cs ih =>
    obtain ⟨hc, hcs⟩ := List.forall_mem_cons.mp h
    rw [read, if_neg (Bool.eq_false_iff.mp hc), ih hcs]
    rfl

theorem length_read (k : Cursor) (cs : List Char) :
    (read ends target k cs).1.length = cs.countP ends := by
  induction cs generalizing k with
  | nil => rfl
  | cons c cs ih =>
    rw [read]
    split
    · next hc => rw [List.length_cons, ih, List.countP_cons_of_pos hc]
    · next hc => rw [ih, List.countP_cons_of_neg hc]

/-! ## Comments -/

theorem foldl_comment (code cs : List Char) :
    cs.foldl (step target) ⟨.comment, code⟩ = ⟨.comment, code⟩ := by
  induction cs with
  | nil => rfl
  | cons c cs ih => exact ih

/-! ## Literals -/

/-- Outside of a literal one begins with a quote only. -/
theorem inLiteral_step (hk : k.mode.inLiteral = false) {c : Char} (hc : c ≠ '"' ∧ c ≠ '\'') :
    (k.step target c).mode.inLiteral = false := by
  have henter : ∀ code, (enter target code c).mode.inLiteral = false := by
    intro code
    unfold enter
    rw [if_neg (not_or.mpr hc)]
    cases target with
    | cpp =>
      dsimp only
      split <;> rfl
    | python =>
      dsimp only
      split <;> rfl
  obtain ⟨mode, code⟩ := k
  cases mode with
  | code => exact henter code
  | slash =>
    show Mode.inLiteral (Cursor.mode (if c = '/' then _ else _)) = false
    split
    · rfl
    · exact henter _
  | literal quote => cases hk
  | escaped quote => cases hk
  | comment => rfl

theorem inLiteral_read {cs : List Char} (h : ∀ c ∈ cs, c ≠ '"' ∧ c ≠ '\'')
    (hk : k.mode.inLiteral = false) : (read ends target k cs).2.mode.inLiteral = false := by
  induction cs generalizing k with
  | nil => exact hk
  | cons c cs ih =>
    obtain ⟨hc, hcs⟩ := List.forall_mem_cons.mp h
    rw [read]
    split
    · exact ih hcs rfl
    · exact ih hcs (inLiteral_step hk hc)

/-- An escaped character leaves the reader in the literal. -/
theorem foldl_escape (code : List Char) (c : Char) :
    (Literal.escape c).foldl (step target) ⟨.literal '"', code⟩ = ⟨.literal '"', code⟩ := by
  have hplain : ∀ d : Char, d ≠ '"' → d ≠ '\\' →
      step target ⟨.literal '"', code⟩ d = ⟨.literal '"', code⟩ := by
    intro d hquote hslash
    simp only [step, if_neg hquote, if_neg hslash]
  have hdigit : ∀ n, n < 8 → Nat.digitChar n ≠ '"' ∧ Nat.digitChar n ≠ '\\' := by decide
  unfold Literal.escape
  split_ifs with hquote hslash hline hreturn htab hcontrol
  · rfl
  · rfl
  · rfl
  · rfl
  · rfl
  · obtain ⟨hsecond, hsecond'⟩ := hdigit (c.toNat / 8 % 8) (by omega)
    obtain ⟨hthird, hthird'⟩ := hdigit (c.toNat % 8) (by omega)
    -- The backslash takes the first digit with it.
    show step target (step target ⟨.literal '"', code⟩ _) _ = _
    rw [hplain _ hsecond hsecond', hplain _ hthird hthird']
  · exact hplain c hquote hslash

/-- A quoted text leaves its quotes behind, whatever was quoted. -/
theorem foldl_quote (code : List Char) (text : String) :
    (Literal.quote text).toList.foldl (step target) ⟨.code, code⟩ =
      ⟨.code, code ++ ['"', '"']⟩ := by
  have hbody : ∀ cs : List Char, (cs.flatMap Literal.escape).foldl (step target)
      ⟨.literal '"', code ++ ['"']⟩ = ⟨.literal '"', code ++ ['"']⟩ := by
    intro cs
    induction cs with
    | nil => rfl
    | cons c cs ih => rw [List.flatMap_cons, List.foldl_append, foldl_escape, ih]
  have hopen : step target ⟨.code, code⟩ '"' = ⟨.literal '"', code ++ ['"']⟩ := rfl
  rw [Literal.quote, String.toList_ofList, Literal.quoteChars, List.foldl_cons, hopen,
    List.foldl_append, hbody]
  show Cursor.mk .code ((code ++ ['"']) ++ ['"']) = _
  rw [List.append_assoc]
  rfl

end Cursor

/-! ## Line ends -/

/-- A character that takes its place in a line. -/
def isPrintable (c : Char) : Bool := !(c.toNat < 0x20 || c.toNat == 0x7F)

theorem all_isPrintable_escape (c : Char) : (Literal.escape c).all isPrintable = true := by
  have hdigit : ∀ n, n < 8 → isPrintable (Nat.digitChar n) = true := by decide
  unfold Literal.escape
  split_ifs with hquote hslash hline hreturn htab hcontrol
  · rfl
  · rfl
  · rfl
  · rfl
  · rfl
  · rw [List.all_cons, List.all_cons, List.all_cons, List.all_cons, hdigit _ (by omega),
      hdigit _ (by omega), hdigit _ (by omega)]
    rfl
  · simpa [isPrintable] using hcontrol

/-- A quoted text is printable, whatever was quoted. -/
theorem isPrintable_of_mem_quote {text : String} {c : Char}
    (h : c ∈ (Literal.quote text).toList) : isPrintable c = true := by
  rw [Literal.quote, String.toList_ofList, Literal.quoteChars] at h
  rcases List.mem_cons.mp h with rfl | h
  · rfl
  rcases List.mem_append.mp h with h | h
  · obtain ⟨d, -, hd⟩ := List.mem_flatMap.mp h
    exact List.all_eq_true.mp (all_isPrintable_escape d) c hd
  · rw [List.mem_singleton.mp h]
    rfl

namespace LineEnd

variable {ends : Char → Bool} (lineEnd : LineEnd ends)
include lineEnd

theorem of_isPrintable {c : Char} (h : isPrintable c = true) : ends c = false := by
  refine Bool.eq_false_iff.mpr fun hends => ?_
  have hcontrol := lineEnd.control c hends
  simp [isPrintable] at h
  omega

theorem forall_of_isPrintable {cs : List Char} (h : cs.all isPrintable = true) :
    ∀ c ∈ cs, ends c = false := fun c hc =>
  lineEnd.of_isPrintable (List.all_eq_true.mp h c hc)

/-! ## Code with a literal -/

/-- Code reads the same with any text in the place of a quoted one. -/
theorem read_literal {target : Target} {before : List Char}
    (hbefore : before.all isPrintable = true)
    (hmode : (before.foldl (Cursor.step target) .start).mode = .code) (text text' : String)
    (after : List Char) :
    Cursor.read ends target .start (before ++ ((Literal.quote text).toList ++ after)) =
      Cursor.read ends target .start (before ++ ((Literal.quote text').toList ++ after)) := by
  have hquote : ∀ (text : String) (code : List Char),
      Cursor.read ends target ⟨.code, code⟩ (Literal.quote text).toList =
        ([], ⟨.code, code ++ ['"', '"']⟩) := by
    intro text code
    rw [Cursor.read_of_forall fun c hc => lineEnd.of_isPrintable (isPrintable_of_mem_quote hc),
      Cursor.foldl_quote]
  rw [Cursor.read_append, Cursor.read_append .start before]
  rw [Cursor.read_of_forall (lineEnd.forall_of_isPrintable hbefore)]
  generalize before.foldl (Cursor.step target) .start = k at hmode ⊢
  obtain ⟨mode, code⟩ := k
  obtain rfl : mode = .code := hmode
  rw [Cursor.read_append, hquote, Cursor.read_append _ (Literal.quote text').toList, hquote]

end LineEnd

/-! ## Lines -/

namespace Line

variable {ends : Char → Bool} {target : Target} {l : Line}

/-- What a line comes to without its comment: how its code is read, and what stands between the
code and a comment. -/
def outline (ends : Char → Bool) (target : Target) (l : Line) :
    (List (List Char) × Cursor) × Option String :=
  (Cursor.read ends target .start l.code.toList, l.comment.map fun _ => separatorOf target l.code)

/-- The comment does not begin in a literal. -/
def Closed (ends : Char → Bool) (target : Target) (l : Line) : Prop :=
  l.comment ≠ none → (Cursor.read ends target .start l.code.toList).2.mode.inLiteral = false

/-- The comment does not break the line. -/
def NoBreak (ends : Char → Bool) (l : Line) : Prop :=
  ∀ note, l.comment = some note → ∀ c ∈ note.toList, ends c = false

/-- The line ends in the comment. -/
def noteBreaks (ends : Char → Bool) (l : Line) : Nat := (l.comment.getD "").toList.countP ends

theorem toList_separator_cpp (code : String) :
    (separatorOf .cpp code).toList = [' ', '/', '/', ' '] := by
  show (" // " : String).toList = _
  decide

theorem toList_separator_python (code : String) :
    (separatorOf .python code).toList = ['#', ' '] ∨
      (separatorOf .python code).toList = [' ', ' ', '#', ' '] := by
  show (Script.separator code).toList = _ ∨ (Script.separator code).toList = _
  unfold Script.separator
  split
  · exact .inl (by decide)
  · exact .inr (by decide)

theorem all_isPrintable_separatorOf (target : Target) (code : String) :
    (separatorOf target code).toList.all isPrintable = true := by
  cases target with
  | cpp =>
    rw [toList_separator_cpp]
    rfl
  | python =>
    rcases toList_separator_python code with hlist | hlist
    · rw [hlist]
      rfl
    · rw [hlist]
      rfl

/-- Outside of a literal, what separates a comment from the code begins a comment. -/
theorem mode_separatorOf (k : Cursor) (hk : k.mode.inLiteral = false) (code : String) :
    ((separatorOf target code).toList.foldl (Cursor.step target) k).mode = .comment := by
  obtain ⟨mode, read⟩ := k
  cases target with
  | cpp =>
    rw [toList_separator_cpp]
    cases mode <;> first | rfl | cases hk
  | python =>
    rcases toList_separator_python code with hlist | hlist
    · rw [hlist]
      cases mode <;> first | rfl | cases hk
    · rw [hlist]
      cases mode <;> first | rfl | cases hk

/-- Once a comment has begun, the rest of the line leaves nothing behind. -/
theorem read_note (lineEnd : LineEnd ends) (k : Cursor) (hk : k.mode.inLiteral = false)
    (code : String) {note : List Char} (hnote : ∀ c ∈ note, ends c = false) :
    Cursor.read ends target k ((separatorOf target code).toList ++ note) =
      Cursor.read ends target k (separatorOf target code).toList := by
  have hmode : ((separatorOf target code).toList.foldl (Cursor.step target) k).mode = .comment :=
    mode_separatorOf k hk code
  rw [Cursor.read_append, Cursor.read_of_forall
    (lineEnd.forall_of_isPrintable (all_isPrintable_separatorOf target code))]
  generalize (separatorOf target code).toList.foldl (Cursor.step target) k = k' at hmode ⊢
  obtain ⟨mode, read⟩ := k'
  obtain rfl : mode = .comment := hmode
  rw [Cursor.read_of_forall hnote, Cursor.foldl_comment]
  rfl

theorem toList_render_noted (target : Target) (code note : String) :
    ((noted code note).render (separatorOf target)).toList =
      code.toList ++ ((separatorOf target code).toList ++ note.toList) := by
  show (code ++ separatorOf target code ++ note).toList = _
  rw [String.toList_append, String.toList_append, List.append_assoc]

/-- The lines that a line is written in. -/
theorem length_codeParts_render (lineEnd : LineEnd ends) :
    (codeParts ends target (l.render (separatorOf target))).length =
      (l.outline ends target).1.1.length + l.noteBreaks ends + 1 := by
  have hseparator : (separatorOf target l.code).toList.countP ends = 0 :=
    List.countP_eq_zero.mpr fun c hc => Bool.eq_false_iff.mp
      (lineEnd.forall_of_isPrintable (all_isPrintable_separatorOf target l.code) c hc)
  rw [codeParts, List.length_append, List.length_singleton, Cursor.length_read, outline,
    Cursor.length_read, noteBreaks, render]
  cases l.comment with
  | none => rfl
  | some note =>
    show List.countP ends (l.code ++ separatorOf target l.code ++ note).toList + 1 = _
    rw [String.toList_append, String.toList_append, List.countP_append, List.countP_append,
      hseparator]
    rfl

/-- A comment that does not break the line leaves nothing behind: the code parts depend on the
outline only. -/
theorem codeParts_render {l' : Line} (lineEnd : LineEnd ends) (closed : l.Closed ends target)
    (noBreak : l.NoBreak ends) (noBreak' : l'.NoBreak ends)
    (same : l.outline ends target = l'.outline ends target) :
    codeParts ends target (l.render (separatorOf target)) =
      codeParts ends target (l'.render (separatorOf target)) := by
  obtain ⟨code, comment⟩ := l
  obtain ⟨code', comment'⟩ := l'
  obtain ⟨hcode, hcomment⟩ := Prod.mk.inj same
  suffices hread : Cursor.read ends target .start
      ((Line.mk code comment).render (separatorOf target)).toList =
        Cursor.read ends target .start
          ((Line.mk code' comment').render (separatorOf target)).toList by
    rw [codeParts, codeParts, hread]
  cases comment with
  | none =>
    cases comment' with
    | none => exact hcode
    | some note' => cases hcomment
  | some note =>
    cases comment' with
    | none => cases hcomment
    | some note' =>
      have hseparator : separatorOf target code = separatorOf target code' :=
        Option.some.inj hcomment
      have hclosed := closed nofun
      have hclosed' := hclosed
      rw [hcode] at hclosed'
      have hnoted := toList_render_noted target code note
      have hnoted' := toList_render_noted target code' note'
      rw [noted] at hnoted hnoted'
      rw [hnoted, hnoted', Cursor.read_append, Cursor.read_append .start code'.toList,
        read_note lineEnd _ hclosed code (noBreak note rfl),
        read_note lineEnd _ hclosed' code' (noBreak' note' rfl), hseparator]
      have hcode : Cursor.read ends target .start code.toList =
        Cursor.read ends target .start code'.toList := hcode
      rw [hcode]

end Line

/-! ## Sections -/

/-- The text of some lines. -/
def textOf (target : Target) (lines : List Line) : String :=
  render (separatorOf target) (Piece.lines lines)

variable {ends : Char → Bool} {target : Target}

/-- The lines of a text are those of the lines that it was written from, and an empty one. -/
theorem codeParts_textOf (lineEnd : LineEnd ends) (lines : List Line) :
    codeParts ends target (textOf target lines) =
      lines.flatMap (fun l => codeParts ends target (l.render (separatorOf target))) ++ [[]] := by
  have hread : Cursor.read ends target .start (textOf target lines).toList =
      (lines.flatMap fun l => codeParts ends target (l.render (separatorOf target)), .start) := by
    induction lines with
    | nil => rfl
    | cons l rest ih =>
      have htext : (textOf target (l :: rest)).toList =
          (l.render (separatorOf target)).toList ++ ('\n' :: (textOf target rest).toList) := by
        rw [textOf, render, Piece.lines, List.map_cons, List.map_cons, String.join_cons,
          String.toList_append, Piece.render, String.toList_append, List.append_assoc]
        rfl
      rw [htext, Cursor.read_append, Cursor.read, if_pos lineEnd.feed, ih, List.flatMap_cons,
        codeParts, List.append_assoc]
      rfl
  rw [codeParts, hread]
  rfl

/-- Sections of one outline have the same number of lines but for those that comments break. -/
theorem length_codeParts_textOf (lineEnd : LineEnd ends) {lines lines' : List Line}
    (same : lines.map (Line.outline ends target) = lines'.map (Line.outline ends target)) :
    (codeParts ends target (textOf target lines)).length +
        (lines'.map (Line.noteBreaks ends)).sum =
      (codeParts ends target (textOf target lines')).length +
        (lines.map (Line.noteBreaks ends)).sum := by
  have hcount : ∀ lines : List Line, (codeParts ends target (textOf target lines)).length =
      ((lines.map (Line.outline ends target)).map fun o => o.1.1.length + 1).sum +
        (lines.map (Line.noteBreaks ends)).sum + 1 := by
    intro lines
    rw [codeParts_textOf lineEnd, List.length_append, List.length_singleton, List.length_flatMap]
    refine congrArg (· + 1) ?_
    induction lines with
    | nil => rfl
    | cons l rest ih =>
      rw [List.map_cons, List.map_cons, List.map_cons, List.map_cons, List.sum_cons, List.sum_cons,
        List.sum_cons, ih, Line.length_codeParts_render lineEnd]
      omega
  rw [hcount, hcount, same]
  omega

/-- Sections of one outline have the same code parts, if no comment breaks a line. -/
theorem codeParts_textOf_congr (lineEnd : LineEnd ends) {lines lines' : List Line}
    (closed : ∀ l ∈ lines, l.Closed ends target) (noBreak : ∀ l ∈ lines, l.NoBreak ends)
    (noBreak' : ∀ l ∈ lines', l.NoBreak ends)
    (same : lines.map (Line.outline ends target) = lines'.map (Line.outline ends target)) :
    codeParts ends target (textOf target lines) = codeParts ends target (textOf target lines') := by
  rw [codeParts_textOf lineEnd, codeParts_textOf lineEnd]
  refine congrArg (· ++ [[]]) ?_
  induction lines generalizing lines' with
  | nil => rw [List.map_eq_nil_iff.mp same.symm]
  | cons l rest ih =>
    obtain ⟨l', rest', rfl, hl, hrest⟩ := List.map_eq_cons_iff.mp same.symm
    obtain ⟨hclosed, hcloseds⟩ := List.forall_mem_cons.mp closed
    obtain ⟨hbreak, hbreaks⟩ := List.forall_mem_cons.mp noBreak
    obtain ⟨hbreak', hbreaks'⟩ := List.forall_mem_cons.mp noBreak'
    rw [List.flatMap_cons, List.flatMap_cons,
      Line.codeParts_render lineEnd hclosed hbreak hbreak' hl.symm,
      ih hcloseds hbreaks hbreaks' hrest.symm]

end CanTables.Emit
