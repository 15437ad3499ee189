import CanTables.Proofs.Emit.CodePart

/-!
# CanTables.Proofs.Text.Grammar — the literal syntax that both target languages have

`Denotes` is the part of the literal syntax of C++ and Python that the emitted sources use, as a
relation: quotes around characters that stand for themselves, escapes of one letter, and octal
escapes of one to three digits, of which there are as many as possible.  The rules do not mention
how a literal is read, and `Literal.read` follows them (`read_eq_some_iff`).

What `quote` writes has one meaning under these rules, in front of any text, and no beginning of it
has any.
-/

namespace CanTables.Text.Literal

/-! ## The rules -/

/-- The characters behind an opening quote: what they denote up to the closing quote, and what is
behind that. -/
inductive Body : List Char → List Char → List Char → Prop where
  | close (rest : List Char) : Body ('"' :: rest) [] rest
  | plain {c : Char} {source text rest : List Char} (hquote : c ≠ '"') (hslash : c ≠ '\\')
      (h : Body source text rest) : Body (c :: source) (c :: text) rest
  | letter {c d : Char} {source text rest : List Char} (hd : letterEscape? c = some d)
      (h : Body source text rest) : Body ('\\' :: c :: source) (d :: text) rest
  | octal {digits : List Char} {n : Nat} {source text rest : List Char}
      (hn : Digits.read? 8 digits = some n) (hlength : digits.length ≤ 3)
      (greedy : digits.length = 3 ∨ ∀ c ∈ source.head?, Digits.valueIn? 8 c = none)
      (h : Body source text rest) : Body ('\\' :: (digits ++ source)) (Char.ofNat n :: text) rest

/-- A source begins with a literal that denotes a text, and the rest follows the literal. -/
def Denotes (source text rest : List Char) : Prop :=
  ∃ body, source = '"' :: body ∧ Body body text rest

theorem Body.ne_nil {source text rest : List Char} (h : Body source text rest) : source ≠ [] := by
  cases h <;> exact List.cons_ne_nil _ _

/-- A literal is not changed by what follows it. -/
theorem Body.append {source text rest : List Char} (h : Body source text rest)
    (more : List Char) : Body (source ++ more) text (rest ++ more) := by
  induction h with
  | close rest => exact .close (rest ++ more)
  | plain hquote hslash _ ih => exact .plain hquote hslash ih
  | letter hd _ ih => exact .letter hd ih
  | @octal digits n source text rest hn hlength greedy h ih =>
    rw [List.cons_append, List.append_assoc]
    refine .octal hn hlength (greedy.imp_right fun hnext => ?_) ih
    obtain ⟨first, tail, rfl⟩ := List.exists_cons_of_ne_nil h.ne_nil
    exact hnext

/-! ## Reading by the rules -/

theorem keep_eq_some_iff {c : Char} {o : Option (List Char × List Char)} {text rest : List Char} :
    keep c o = some (text, rest) ↔ ∃ tail, o = some (tail, rest) ∧ text = c :: tail := by
  cases o with
  | none => simp [keep]
  | some result =>
    obtain ⟨tail, after⟩ := result
    simp only [keep, Option.some.injEq, Prod.mk.injEq]
    constructor
    · rintro ⟨rfl, rfl⟩
      exact ⟨tail, ⟨rfl, rfl⟩, rfl⟩
    · rintro ⟨_, ⟨rfl, rfl⟩, rfl⟩
      exact ⟨rfl, rfl⟩

/-- No octal digit names a character behind a backslash. -/
theorem letterEscape?_of_valueIn? {c : Char} {x : Nat} (h : Digits.valueIn? 8 c = some x) :
    letterEscape? c = none := by
  by_contra hletter
  obtain ⟨d, hd⟩ := Option.ne_none_iff_exists'.mp hletter
  have hcases : c = '"' ∨ c = '\\' ∨ c = 'n' ∨ c = 'r' ∨ c = 't' := by
    unfold letterEscape? at hd
    grind
  rcases hcases with rfl | rfl | rfl | rfl | rfl <;> cases h

section Step

variable {c : Char} {x value : Nat} (rest : List Char)

theorem readFrom_escaped_digit (h : Digits.valueIn? 8 c = some x) :
    readFrom .escaped (c :: rest) = readFrom (.octal 1 x) rest := by
  simp [readFrom, letterEscape?_of_valueIn? h, h]

theorem readFrom_octal_second (h : Digits.valueIn? 8 c = some x) :
    readFrom (.octal 1 value) (c :: rest) = readFrom (.octal 2 (value * 8 + x)) rest := by
  simp [readFrom, h]

theorem readFrom_octal_third (h : Digits.valueIn? 8 c = some x) :
    readFrom (.octal 2 value) (c :: rest) =
      keep (Char.ofNat (value * 8 + x)) (readFrom .plain rest) := by
  simp [readFrom, h]

/-- A character that is no digit ends an octal escape and is read on its own. -/
theorem readFrom_octal_stop (digits : Nat) (h : Digits.valueIn? 8 c = none) :
    readFrom (.octal digits value) (c :: rest) =
      keep (Char.ofNat value) (readFrom .plain (c :: rest)) := by
  simp [readFrom, h]

end Step

theorem read?_singleton (c : Char) : Digits.read? 8 [c] = Digits.valueIn? 8 c := by
  simp [Digits.read?, Digits.valueOf?, Digits.shiftIn]

theorem read?_concat_iff {digits : List Char} (hne : digits ≠ []) {c : Char} {n : Nat} :
    Digits.read? 8 (digits ++ [c]) = some n ↔ ∃ value x, Digits.read? 8 digits = some value ∧
      Digits.valueIn? 8 c = some x ∧ n = value * 8 + x := by
  have hread : ∀ cs : List Char, cs ≠ [] → Digits.read? 8 cs = Digits.valueOf? 8 cs :=
    fun cs hcs => if_neg (by simpa using hcs)
  rw [hread _ (List.append_ne_nil_of_left_ne_nil hne [c]), hread _ hne, Digits.valueOf?,
    List.foldlM_append, ← Digits.valueOf?]
  cases Digits.valueOf? 8 digits with
  | none => simp
  | some value =>
    cases hx : Digits.valueIn? 8 c with
    | none => simp [Digits.shiftIn, hx]
    | some x => simp [Digits.shiftIn, hx, eq_comm]

/-- What the rules say is read. -/
theorem readFrom_of_body {source text rest : List Char} (h : Body source text rest) :
    readFrom .plain source = some (text, rest) := by
  induction h with
  | close rest => rfl
  | @plain c source text rest hquote hslash _ ih =>
    rw [readFrom, if_neg hquote, if_neg hslash, ih]
    rfl
  | @letter c d source text rest hd _ ih =>
    simp [readFrom, hd, ih, keep]
  | @octal digits n source text rest hn hlength greedy h ih =>
    show readFrom .escaped (digits ++ source) = _
    obtain ⟨next, tail, rfl⟩ := List.exists_cons_of_ne_nil h.ne_nil
    have hstop : digits.length ≠ 3 → Digits.valueIn? 8 next = none :=
      fun hless => greedy.resolve_left hless next rfl
    -- An escape of one, two or three digits.
    rcases digits with _ | ⟨a, _ | ⟨b, _ | ⟨c, _ | ⟨d, digits⟩⟩⟩⟩
    · cases hn
    · rw [read?_singleton] at hn
      rw [List.cons_append, readFrom_escaped_digit _ hn, List.nil_append,
        readFrom_octal_stop _ _ (hstop (by simp)), ih]
      rfl
    · obtain ⟨value, x, ha, hb, rfl⟩ := (read?_concat_iff (List.cons_ne_nil a [])).mp hn
      rw [read?_singleton] at ha
      rw [List.cons_append, readFrom_escaped_digit _ ha, List.cons_append,
        readFrom_octal_second _ hb, List.nil_append, readFrom_octal_stop _ _ (hstop (by simp)), ih]
      rfl
    · obtain ⟨value, x, hab, hc, rfl⟩ := (read?_concat_iff (List.cons_ne_nil a [b])).mp hn
      obtain ⟨value, y, ha, hb, rfl⟩ := (read?_concat_iff (List.cons_ne_nil a [])).mp hab
      rw [read?_singleton] at ha
      rw [List.cons_append, readFrom_escaped_digit _ ha, List.cons_append,
        readFrom_octal_second _ hb, List.cons_append, readFrom_octal_third _ hc, List.nil_append,
        ih]
      rfl
    · simp only [List.length_cons] at hlength
      omega

/-- What a reader has read since the last whole character, by where it stands. -/
inductive Pending : Mode → List Char → Prop where
  | plain : Pending .plain []
  | escaped : Pending .escaped ['\\']
  | first {c : Char} {x : Nat} (h : Digits.read? 8 [c] = some x) :
      Pending (.octal 1 x) ['\\', c]
  | second {c d : Char} {x : Nat} (h : Digits.read? 8 [c, d] = some x) :
      Pending (.octal 2 x) ['\\', c, d]

/-- What is read is as the rules say, together with what was read before. -/
theorem body_of_readFrom {mode : Mode} {pending source text rest : List Char}
    (hpending : Pending mode pending) (h : readFrom mode source = some (text, rest)) :
    Body (pending ++ source) text rest := by
  induction source generalizing mode pending text with
  | nil => cases h
  | cons c source ih =>
    -- Between characters; an octal escape that ends here is continued in the same way.
    have hplain : ∀ text, readFrom .plain (c :: source) = some (text, rest) →
        Body (c :: source) text rest := by
      intro text h
      rw [readFrom] at h
      split at h
      · next hquote =>
        cases h
        rw [hquote]
        exact .close rest
      · next hquote =>
        split at h
        · next hslash =>
          rw [hslash]
          exact ih .escaped h
        · next hslash =>
          obtain ⟨tail, htail, rfl⟩ := keep_eq_some_iff.mp h
          exact .plain hquote hslash (ih .plain htail)
    cases hpending with
    | plain => exact hplain text h
    | escaped =>
      cases hd : letterEscape? c with
      | some d =>
        simp only [readFrom, hd] at h
        obtain ⟨tail, htail, rfl⟩ := keep_eq_some_iff.mp h
        exact .letter hd (ih .plain htail)
      | none =>
        cases hx : Digits.valueIn? 8 c with
        | none => simp [readFrom, hd, hx] at h
        | some x =>
          rw [readFrom_escaped_digit _ hx] at h
          exact ih (.first ((read?_singleton c).trans hx)) h
    | @first a value ha =>
      cases hx : Digits.valueIn? 8 c with
      | none =>
        rw [readFrom_octal_stop _ _ hx] at h
        obtain ⟨tail, htail, rfl⟩ := keep_eq_some_iff.mp h
        refine .octal ha (by simp) (.inr fun d hd => ?_) (hplain tail htail)
        exact Option.some.inj hd ▸ hx
      | some x =>
        rw [readFrom_octal_second _ hx] at h
        refine ih (.second ?_) h
        exact (read?_concat_iff (List.cons_ne_nil a [])).mpr ⟨value, x, ha, hx, rfl⟩
    | @second a b value hab =>
      cases hx : Digits.valueIn? 8 c with
      | none =>
        rw [readFrom_octal_stop _ _ hx] at h
        obtain ⟨tail, htail, rfl⟩ := keep_eq_some_iff.mp h
        refine .octal hab (by simp) (.inr fun d hd => ?_) (hplain tail htail)
        exact Option.some.inj hd ▸ hx
      | some x =>
        rw [readFrom_octal_third _ hx] at h
        obtain ⟨tail, htail, rfl⟩ := keep_eq_some_iff.mp h
        have hn : Digits.read? 8 [a, b, c] = some (value * 8 + x) :=
          (read?_concat_iff (List.cons_ne_nil a [b])).mpr ⟨value, x, hab, hx, rfl⟩
        show Body ('\\' :: ([a, b, c] ++ source)) _ rest
        exact .octal hn (by simp) (.inl rfl) (ih .plain htail)

/-- The literal at the front of a source is read exactly as the rules say. -/
theorem read_eq_some_iff {source text rest : List Char} :
    read source = some (text, rest) ↔ Denotes source text rest := by
  constructor
  · intro h
    unfold read at h
    split at h
    · next body => exact ⟨body, rfl, body_of_readFrom .plain h⟩
    · cases h
  · rintro ⟨body, rfl, hbody⟩
    exact readFrom_of_body hbody

/-! ## Quoted texts -/

/-- Where a literal has a meaning, it has it in front of any text. -/
theorem Denotes.append {source text rest : List Char} (h : Denotes source text rest)
    (more : List Char) : Denotes (source ++ more) text (rest ++ more) := by
  obtain ⟨body, rfl, hbody⟩ := h
  exact ⟨body ++ more, rfl, hbody.append more⟩

theorem denotes_quote_iff {s : String} {after text rest : List Char} :
    Denotes ((quote s).toList ++ after) text rest ↔ text = s.toList ∧ rest = after := by
  rw [← read_eq_some_iff, read_quote, Option.some.injEq, Prod.mk.injEq, eq_comm,
    eq_comm (a := after)]

/-- A beginning of a quoted text that denotes something is all of it. -/
theorem eq_nil_of_denotes {s : String} {front more text rest : List Char}
    (hquote : (quote s).toList = front ++ more) (h : Denotes front text rest) : more = [] := by
  have hall := h.append more
  rw [← hquote, ← List.append_nil (quote s).toList] at hall
  exact (List.append_eq_nil_iff.mp (denotes_quote_iff.mp hall).2).2

/-- A quoted text denotes that text and nothing else, whatever follows it, and what follows is left.
No control character below 0x80 stands in it, so it does not break the line; different texts are
quoted differently; and nothing in a text ends its literal early. -/
theorem quote_denotes :
    (∀ (s : String) (after text rest : List Char),
      Denotes ((quote s).toList ++ after) text rest ↔ text = s.toList ∧ rest = after) ∧
    (∀ s : String, (∀ c ∈ (quote s).toList, 0x20 ≤ c.toNat ∧ c.toNat ≠ 0x7F) ∧
      '\n' ∉ (quote s).toList ∧ '\r' ∉ (quote s).toList) ∧
    Function.Injective quote ∧
    ∀ (s : String) (front more text rest : List Char), (quote s).toList = front ++ more →
      Denotes front text rest → more = [] := by
  have hprintable : ∀ (s : String), ∀ c ∈ (quote s).toList, 0x20 ≤ c.toNat ∧ c.toNat ≠ 0x7F := by
    intro s c hc
    have hprint := Emit.isPrintable_of_mem_quote hc
    simp only [Emit.isPrintable, Bool.not_eq_true', Bool.or_eq_false_iff, decide_eq_false_iff_not,
      beq_eq_false_iff_ne] at hprint
    exact ⟨Nat.not_lt.mp hprint.1, hprint.2⟩
  refine ⟨fun s after text rest => denotes_quote_iff, fun s => ?_, ?_, ?_⟩
  · refine ⟨hprintable s, fun hmem => ?_, fun hmem => ?_⟩
    · exact absurd (hprintable s _ hmem).1 (by decide)
    · exact absurd (hprintable s _ hmem).1 (by decide)
  · intro s s' heq
    have hself : Denotes ((quote s).toList ++ []) s.toList [] := denotes_quote_iff.mpr ⟨rfl, rfl⟩
    rw [heq, denotes_quote_iff] at hself
    exact String.toList_injective hself.1
  · intro s front more text rest
    exact eq_nil_of_denotes

/-- An octal escape in front of a digit, and a digit behind the literal. -/
theorem quote_denotes_controlBeforeDigit :
    (quote "x\x011").toList = ['"', 'x', '\\', '0', '0', '1', '1', '"'] ∧
    Denotes ['"', 'x', '\\', '0', '0', '1', '1', '"', '7'] ['x', '\x01', '1'] ['7'] := by
  have hquote : (quote "x\x011").toList = ['"', 'x', '\\', '0', '0', '1', '1', '"'] := by decide
  have hdenotes := (quote_denotes.1 "x\x011" ['7'] ['x', '\x01', '1'] ['7']).mpr ⟨rfl, rfl⟩
  rw [hquote] at hdenotes
  exact ⟨hquote, hdenotes⟩

end CanTables.Text.Literal
