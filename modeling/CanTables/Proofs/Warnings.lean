import CanTables.Proofs.Journal
import Mathlib.Data.List.Infix

/-!
# CanTables.Proofs.Warnings — warnings that name something

A text names something if the name occurs in it as a word: what stands in front of it and behind it
is neither a letter nor a digit, so that a text about `gear2` does not name `gear`.  A warning names
what its text names; the mark in front of it counts only for the identifier of a message, so that a
warning of the set `gear` does not name a signal of that name.

`Warns` says that a set has a warning that names something: a message by its identifier, a signal by
its generic name, or a command by its name.
-/

namespace CanTables

/-- The name of the set that an origin belongs to. -/
def Origin.set : Origin → String
  | .ofSet name => name
  | .ofMessage name _ => name

/-- A character next to a word, if there is one, is not part of a word. -/
def Delimits (c? : Option Char) : Prop := ∀ c, c? = some c → c.isAlphanum = false

/-- A word occurs in a text. -/
def HasWord (text word : String) : Prop :=
  ∃ front back : String, text = front ++ word ++ back ∧ Delimits front.toList.getLast? ∧
    Delimits back.toList.head?

/-- A line with this origin and text names something: the text does, or the line is about a message
and this is its identifier. -/
def Origin.Names (origin : Origin) (text word : String) : Prop :=
  HasWord text word ∨ ∃ set id, origin = .ofMessage set id ∧ word = Fault.hex id

/-- Among some lines is a warning of a set that names something. -/
def Warns (journal : List Entry) (set word : String) : Prop :=
  ∃ (origin : Origin) (text : String), origin.set = set ∧ origin.entry .warn text ∈ journal ∧
    origin.Names text word

theorem Warns.of_mem {journal : List Entry} {origin : Origin} {text word : String}
    (mem : origin.entry .warn text ∈ journal) (names : origin.Names text word) :
    Warns journal origin.set word := ⟨origin, text, rfl, mem, names⟩

theorem Warns.of_report {β : Type} {origin : Origin} {text word : String}
    (names : origin.Names text word) (f : Unit → Run β) :
    Warns (Run.report origin .warn text >>= f).journal origin.set word :=
  Warns.of_mem (Run.mem_journal_bind_left List.mem_cons_self) names

theorem Warns.mono {journal journal' : List Entry} {set word : String}
    (h : Warns journal set word) (sub : journal ⊆ journal') : Warns journal' set word := by
  obtain ⟨origin, text, hset, hmem, hnames⟩ := h
  exact ⟨origin, text, hset, sub hmem, hnames⟩

/-- The mark of a message shows its identifier. -/
theorem Origin.mark_ofMessage (set : String) (id : UInt32) : (Origin.ofMessage set id).mark =
    "[message_set=" ++ set ++ ", message=" ++ Fault.hex id ++ "] " := by
  have hsplit : ", message=0x" = ", message=" ++ "0x" := by decide +kernel
  show "[message_set=" ++ set ++ ", message=0x" ++ Text.Digits.hex id.toNat ++ "] " = _
  rw [hsplit, Fault.hex]
  simp only [String.append_assoc]

/-- What a warning names stands in it letter by letter. -/
theorem Warns.exists_occurrence {journal : List Entry} {set word : String}
    (h : Warns journal set word) :
    ∃ e ∈ journal, e.level = .warn ∧ word.toList <:+: e.text.toList := by
  obtain ⟨origin, text, -, hmem, hnames⟩ := h
  refine ⟨_, hmem, rfl, ?_⟩
  show word.toList <:+: (origin.mark ++ text).toList
  rcases hnames with ⟨front, back, rfl, -, -⟩ | ⟨set, id, rfl, rfl⟩
  · refine ⟨(origin.mark ++ front).toList, back.toList, ?_⟩
    simp only [String.toList_append, List.append_assoc]
  · refine ⟨("[message_set=" ++ set ++ ", message=").toList, ("] " ++ text).toList, ?_⟩
    simp only [Origin.mark_ofMessage, String.toList_append, List.append_assoc]

/-! ## Where a word stands -/

/-- A text ends with something that is not part of a word. -/
def Opens (text : String) : Bool := text.toList.getLast?.any fun c => !c.isAlphanum

/-- A text begins with something that is not part of a word. -/
def Closes (text : String) : Bool := text.toList.head?.any fun c => !c.isAlphanum

theorem delimits_of_opens {opening : String} (h : Opens opening = true) (front : String) :
    Delimits (front ++ opening).toList.getLast? := by
  obtain ⟨c, hc, hword⟩ := (Option.any_eq_true _ _).mp h
  intro c' hc'
  rw [String.toList_append, List.getLast?_append, hc] at hc'
  cases hc'
  simpa using hword

theorem delimits_of_closes {closing : String} (h : Closes closing = true) (back : String) :
    Delimits (closing ++ back).toList.head? := by
  obtain ⟨c, hc, hword⟩ := (Option.any_eq_true _ _).mp h
  intro c' hc'
  rw [String.toList_append, List.head?_append, hc] at hc'
  cases hc'
  simpa using hword

section Words

variable {opening closing : String} (hopening : Opens opening = true)
include hopening

theorem hasWord_between (hclosing : Closes closing = true) (front word back : String) :
    HasWord (front ++ opening ++ word ++ (closing ++ back)) word :=
  ⟨front ++ opening, closing ++ back, rfl, delimits_of_opens hopening front,
    delimits_of_closes hclosing back⟩

theorem hasWord_last (front word : String) : HasWord (front ++ opening ++ word) word := by
  refine ⟨front ++ opening, "", ?_, delimits_of_opens hopening front, fun c hc => ?_⟩
  · rw [String.append_empty]
  · cases hc

end Words

end CanTables
