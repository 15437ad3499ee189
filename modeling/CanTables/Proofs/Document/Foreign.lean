import CanTables.Document.Reader
import CanTables.Network.Basic
import Mathlib.Data.List.TakeWhile

/-!
# CanTables.Proofs.Document.Foreign — configuration texts are no databases

Behind the blanks a configuration value starts with a bracket, a quote, or a character of a number
or a name.  An XML text cannot: there nothing but markup may stand before the first element.  So a
file that holds a configuration value is never read as a network database.
-/

namespace CanTables

open Document Markup

/-! ## How a configuration text starts -/

/-- A character that a word of a configuration text starts with. -/
def Document.Token.Starts (c : Char) : Prop :=
  Token.isSpace c = false ∧ ∃ s, Token.stepBetween [] c = some s

theorem Document.Token.Starts.ne {c d : Char} (h : Token.Starts c)
    (hd : Token.isSpace d = true ∨ Token.stepBetween [] d = none) : c ≠ d := by
  rintro rfl
  obtain ⟨hspace, s, hs⟩ := h
  rcases hd with hd | hd
  · rw [hspace] at hd
    cases hd
  · rw [hs] at hd
    cases hd

theorem Document.Token.foldlM_spaces {spaces : List Char} (h : ∀ c ∈ spaces, isSpace c = true)
    (words : List Token) :
    spaces.foldlM Token.step ⟨.between, words⟩ = some ⟨.between, words⟩ := by
  induction spaces with
  | nil => rfl
  | cons c rest ih =>
    obtain ⟨hc, hrest⟩ := List.forall_mem_cons.mp h
    rw [List.foldlM_cons]
    show Token.stepBetween words c >>= _ = _
    rw [Token.stepBetween, hc, if_pos rfl]
    exact ih hrest

/-- A configuration text is blanks and then a word. -/
theorem Document.Value.exists_start_of_ofText? {levels : Nat} {text : String} {v : Value}
    (h : Value.ofText? levels text = some v) :
    ∃ spaces c rest, text.toList = spaces ++ c :: rest ∧
      (∀ d ∈ spaces, Token.isSpace d = true) ∧ Token.Starts c := by
  obtain ⟨tokens, htokens, h⟩ := Option.bind_eq_some_iff.mp h
  have hsplit := List.takeWhile_append_dropWhile (p := Token.isSpace) (l := text.toList)
  have hspaces : ∀ d ∈ text.toList.takeWhile Token.isSpace, Token.isSpace d = true :=
    fun d hd => List.mem_takeWhile_imp hd
  -- The blanks leave the scanner as it starts, so the word starts between words.
  rw [Token.ofChars?, ← hsplit, List.foldlM_append, Token.Scanner.start,
    Token.foldlM_spaces hspaces] at htokens
  cases hrest : text.toList.dropWhile Token.isSpace with
  | nil =>
    rw [hrest] at htokens
    cases htokens
    cases h
  | cons c rest =>
    have hc : Token.isSpace c = false := by
      have hhead := List.head_dropWhile_not Token.isSpace (l := text.toList)
        (by rw [hrest]; exact List.cons_ne_nil c rest)
      simpa only [hrest, List.head_cons] using hhead
    rw [hrest] at hsplit
    rw [hrest, Option.bind_eq_bind, Option.bind_some, List.foldlM_cons] at htokens
    refine ⟨_, c, rest, hsplit.symm, hspaces, hc, ?_⟩
    obtain ⟨s, hs, -⟩ := Option.bind_eq_some_iff.mp htokens
    obtain ⟨first, hfirst, -⟩ := Option.bind_eq_some_iff.mp hs
    exact ⟨first, hfirst⟩

/-! ## How an XML text starts -/

namespace Markup

/-- Marks are only added. -/
theorem Event.step_events (s : Event.Scanner) (c : Char) :
    ∃ added, (Event.step s c).events = added ++ s.events := by
  obtain ⟨mode, events⟩ := s
  have hflush : ∀ read, ∃ added, Event.flush read events = added ++ events := by
    intro read
    unfold Event.flush
    split
    · exact ⟨[], rfl⟩
    · exact ⟨[_], rfl⟩
  cases mode <;> simp only [Event.step] <;> (repeat' split) <;>
    first
    | exact hflush _
    | exact ⟨[], rfl⟩
    | exact ⟨[_], rfl⟩

theorem mem_unifyLineEnds {c : Char} (hr : c ≠ '\r') (hnel : c ≠ '\u0085') (hls : c ≠ '\u2028')
    {cs : List Char} (h : c ∈ cs) (hn : c ≠ '\n') : c ∈ unifyLineEnds cs := by
  induction cs using unifyLineEnds.induct with
  | case1 => cases h
  | case2 rest ih =>
    rw [unifyLineEnds]
    rcases List.mem_cons.mp h with rfl | h
    · exact absurd rfl hr
    rcases List.mem_cons.mp h with rfl | h
    · exact absurd rfl hn
    exact List.mem_cons_of_mem _ (ih h)
  | case3 rest ih =>
    rw [unifyLineEnds]
    rcases List.mem_cons.mp h with rfl | h
    · exact absurd rfl hr
    rcases List.mem_cons.mp h with rfl | h
    · exact absurd rfl hnel
    exact List.mem_cons_of_mem _ (ih h)
  | case4 d rest h1 h2 ih =>
    rw [unifyLineEnds.eq_4 d rest h1 h2]
    rcases List.mem_cons.mp h with rfl | h
    · rw [if_neg (by rintro (h | h | h) <;> contradiction)]
      exact List.mem_cons_self
    · exact List.mem_cons_of_mem _ (ih h)

/-- A character that is no markup has been read as data before any mark. -/
def Event.Scanner.Began (c : Char) (s : Event.Scanner) : Prop :=
  (∃ read, s = ⟨.content read, []⟩ ∧ c ∈ read) ∨
    ∃ read later, s.events = later ++ [Event.ofData read] ∧ c ∈ read

theorem Event.Scanner.Began.step {c : Char} {s : Event.Scanner} (h : s.Began c) (d : Char) :
    (Event.step s d).Began c := by
  rcases h with ⟨read, rfl, hc⟩ | ⟨read, later, hevents, hc⟩
  · have hne : read.isEmpty = false := List.isEmpty_eq_false_iff.mpr (List.ne_nil_of_mem hc)
    have hflush : Event.flush read [] = [] ++ [Event.ofData read] := by
      rw [Event.flush, hne]
      rfl
    simp only [Event.step]
    split
    · exact .inr ⟨read, [], hflush, hc⟩
    split
    · exact .inr ⟨read, [], hflush, hc⟩
    · exact .inl ⟨d :: read, rfl, List.mem_cons_of_mem _ hc⟩
  · obtain ⟨added, hadded⟩ := Event.step_events s d
    refine .inr ⟨read, added ++ later, ?_, hc⟩
    rw [hadded, hevents, List.append_assoc]

theorem Event.Scanner.Began.foldl {c : Char} {s : Event.Scanner} (h : s.Began c)
    (cs : List Char) : (cs.foldl Event.step s).Began c := by
  induction cs generalizing s with
  | nil => exact h
  | cons d rest ih => exact ih (h.step d)

theorem Event.foldl_data {cs : List Char} (h : ∀ c ∈ cs, c ≠ '<' ∧ c ≠ '&') (read : List Char) :
    cs.foldl Event.step ⟨.content read, []⟩ = ⟨.content (cs.reverse ++ read), []⟩ := by
  induction cs generalizing read with
  | nil => rfl
  | cons c rest ih =>
    obtain ⟨⟨hlt, hamp⟩, hrest⟩ := List.forall_mem_cons.mp h
    have hstep : Event.step ⟨.content read, []⟩ c = ⟨.content (c :: read), []⟩ := by
      simp only [Event.step]
      rw [if_neg hlt, if_neg hamp]
    rw [List.foldl_cons, hstep, ih hrest, List.reverse_cons, List.append_assoc]
    rfl

/-- A text with data before any markup has no first element. -/
theorem Node.ofText?_eq_none_of_data {text : String} {spaces : List Char} {c : Char}
    {rest : List Char} (htext : text.toList = spaces ++ c :: rest)
    (hspaces : ∀ d ∈ spaces, isSpace d = true) (hspace : isSpace c = false)
    (hc : ∀ d ∈ ['<', '&', '\uFEFF', '\u0085', '\u2028'], c ≠ d) : Node.ofText? text = none := by
  have hdata : ∀ d ∈ spaces ++ [c], d ≠ '<' ∧ d ≠ '&' ∧ d ≠ '\uFEFF' := by
    intro d hd
    rcases List.mem_append.mp hd with hd | hd
    · have hblank := hspaces d hd
      refine ⟨?_, ?_, ?_⟩ <;>
      · rintro rfl
        exact absurd hblank (by decide)
    · rw [List.mem_singleton.mp hd]
      exact ⟨hc _ (by simp), hc _ (by simp), hc _ (by simp)⟩
  -- The blanks and the first character behind them are data, which no mark precedes.
  have hbegan : ((text.toList.foldl Event.step .start)).Began c := by
    rw [htext, List.append_cons, List.foldl_append, Event.Scanner.start,
      Event.foldl_data fun d hd => ⟨(hdata d hd).1, (hdata d hd).2.1⟩]
    exact Event.Scanner.Began.foldl (.inl ⟨_, rfl, by simp⟩) rest
  -- The text has no byte order mark: it would be a blank or the first character.
  have hbody : Event.ofChars text.toList =
      (text.toList.foldl Event.step .start).events.reverse := by
    unfold Event.ofChars
    split
    next inner hmark =>
      have hhead : '\uFEFF' ∈ spaces ++ [c] := by
        rw [htext] at hmark
        cases spaces with
        | nil =>
          cases hmark
          exact List.mem_singleton_self _
        | cons d more =>
          cases hmark
          exact List.mem_cons_self
      exact absurd rfl (hdata _ hhead).2.2
    next => rfl
  rw [Node.ofText?, hbody]
  rcases hbegan with ⟨read, hs, -⟩ | ⟨read, later, hevents, hread⟩
  · rw [hs]
    rfl
  -- The first mark is data that is not blank, and that is refused before an element.
  · have hall : (unifyLineEnds read.reverse).all isSpace = false := by
      rw [List.all_eq_false]
      refine ⟨c, ?_, by rw [hspace]; exact Bool.false_ne_true⟩
      refine mem_unifyLineEnds ?_ (hc _ (by simp)) (hc _ (by simp)) (List.mem_reverse.mpr hread) ?_
      · rintro rfl
        exact absurd hspace (by decide)
      · rintro rfl
        exact absurd hspace (by decide)
    rw [hevents, List.reverse_append, List.reverse_singleton, List.singleton_append,
      List.foldlM_cons, Event.ofData]
    have hstep : Builder.step ⟨[], none⟩ (.text (unifyLineEnds read.reverse)) = none := by
      simp only [Builder.step, Option.isSome_none, Bool.false_eq_true, if_false,
        List.isEmpty_nil, if_true, hall]
    rw [hstep]
    rfl

end Markup

/-- A text that holds a configuration value holds no database. -/
theorem Network.Database.ofText?_eq_none {levels : Nat} {text : String} {v : Value}
    (h : Value.ofText? levels text = some v) : Network.Database.ofText? text = none := by
  obtain ⟨spaces, c, rest, htext, hspaces, hstarts⟩ := Value.exists_start_of_ofText? h
  have hnone : Node.ofText? text = none := by
    refine Markup.Node.ofText?_eq_none_of_data htext hspaces hstarts.1 fun d hd => hstarts.ne ?_
    simp only [List.mem_cons, List.not_mem_nil, or_false] at hd
    rcases hd with rfl | rfl | rfl | rfl | rfl <;> exact .inr (by decide)
  unfold Network.Database.ofText?
  rw [hnone]

end CanTables
