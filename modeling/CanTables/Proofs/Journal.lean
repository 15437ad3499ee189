import CanTables.Journal
import Mathlib.Data.List.Forall2

/-!
# CanTables.Proofs.Journal — what a computation yields

The outcome of a computation with a journal is computed from the outcomes of its parts: the journal
never decides anything.  `Run.outcome_bind` and its companions turn a statement about a computation
into one about a chain of `Except` steps, and `Except.bind_eq_ok_iff` and `Except.mapM_eq_ok_iff`
take such a chain apart.

The journal only grows: what a part of a computation writes is in the journal of the whole
(`Run.mem_journal_bind_left` and its companions).
-/

namespace CanTables

variable {α β ε : Type}

/-! ## Computations without a journal -/

theorem Except.bind_eq_ok_iff {x : Except ε α} {f : α → Except ε β} {b : β} :
    x >>= f = .ok b ↔ ∃ a, x = .ok a ∧ f a = .ok b := by
  cases x with
  | error fault => simp [bind, Except.bind]
  | ok a => simp [bind, Except.bind]

theorem Except.bind_eq_error_iff {x : Except ε α} {f : α → Except ε β} {e : ε} :
    x >>= f = .error e ↔ x = .error e ∨ ∃ a, x = .ok a ∧ f a = .error e := by
  cases x with
  | error e' => simp [bind, Except.bind]
  | ok a => simp [bind, Except.bind]

theorem Except.exists_eq_error_iff {x : Except ε α} :
    (∃ e, x = .error e) ↔ ¬ ∃ a, x = .ok a := by
  cases x <;> simp

theorem Except.map_eq_ok_iff {x : Except ε α} {f : α → β} {b : β} :
    x.map f = .ok b ↔ ∃ a, x = .ok a ∧ f a = b := by
  cases x with
  | error fault => simp [Except.map]
  | ok a => simp [Except.map]

theorem Except.map_eq_error_iff {x : Except ε α} {f : α → β} {e : ε} :
    x.map f = .error e ↔ x = .error e := by
  cases x with
  | error e' => simp [Except.map]
  | ok a => simp [Except.map]

@[simp]
theorem Except.pure_eq_ok (a : α) : (pure a : Except ε α) = .ok a := rfl

@[simp]
theorem Except.ok_bind (a : α) (f : α → Except ε β) : (Except.ok a >>= f) = f a := rfl

theorem Except.exists_of_any_toOption {x : Except ε α} {p : α → Bool}
    (h : x.toOption.any p = true) : ∃ a, x = .ok a ∧ p a = true := by
  cases x with
  | error fault => exact absurd h Bool.false_ne_true
  | ok a => exact ⟨a, rfl, h⟩

/-- A list of steps succeeds exactly when every step does, with the results in order. -/
theorem Except.mapM_eq_ok_iff {f : α → Except ε β} {l : List α} {r : List β} :
    l.mapM f = .ok r ↔ List.Forall₂ (fun a b => f a = .ok b) l r := by
  induction l generalizing r with
  | nil =>
    rw [List.mapM_nil, Except.pure_eq_ok, List.forall₂_nil_left_iff, Except.ok.injEq]
    exact eq_comm
  | cons a rest ih =>
    rw [List.mapM_cons, Except.bind_eq_ok_iff]
    constructor
    · rintro ⟨b, hb, h⟩
      obtain ⟨bs, hbs, h⟩ := Except.bind_eq_ok_iff.mp h
      cases h
      exact .cons hb (ih.mp hbs)
    · intro h
      obtain ⟨b, bs, hb, hbs, rfl⟩ := List.forall₂_cons_left_iff.mp h
      exact ⟨b, hb, Except.bind_eq_ok_iff.mpr ⟨bs, ih.mpr hbs, rfl⟩⟩

/-- A list of steps fails only where one of them does. -/
theorem Except.exists_of_mapM_eq_error {f : α → Except ε β} {l : List α} {e : ε}
    (h : l.mapM f = .error e) : ∃ a ∈ l, f a = .error e := by
  induction l with
  | nil => cases h
  | cons a rest ih =>
    rw [List.mapM_cons, bind_eq_error_iff] at h
    rcases h with h | ⟨b, -, h⟩
    · exact ⟨a, List.mem_cons_self, h⟩
    · rcases bind_eq_error_iff.mp h with h | ⟨bs, -, h⟩
      · obtain ⟨a', hmem, ha'⟩ := ih h
        exact ⟨a', List.mem_cons_of_mem _ hmem, ha'⟩
      · cases h

theorem Except.map_bind (x : Except ε α) (f : α → β) {γ : Type} (g : β → Except ε γ) :
    x.map f >>= g = x >>= fun a => g (f a) := by
  cases x <;> rfl

theorem Except.bind_map (x : Except ε α) (g : α → Except ε β) {γ : Type} (f : β → γ) :
    (x >>= g).map f = x >>= fun a => (g a).map f := by
  cases x <;> rfl

theorem Except.map_map (x : Except ε α) (f : α → β) {γ : Type} (g : β → γ) :
    (x.map f).map g = x.map fun a => g (f a) := by
  cases x <;> rfl

/-- Computations that yield the same up to some view, each followed by one that depends on that view
only. -/
theorem Except.bind_congr_of_map {γ δ : Type} {x : Except ε α} {y : Except ε β} {f : α → γ}
    {g : β → γ} (h : x.map f = y.map g) {F : α → Except ε δ} {G : β → Except ε δ}
    (hFG : ∀ a b, f a = g b → F a = G b) : x >>= F = y >>= G := by
  cases x with
  | error fault =>
    cases y with
    | error fault' =>
      cases h
      rfl
    | ok b => cases h
  | ok a =>
    cases y with
    | error fault' => cases h
    | ok b => exact hFG a b (Except.ok.inj h)

/-- Steps on changed elements that yield changed results: so does the list of them. -/
theorem Except.mapM_map {γ δ : Type} {change : α → γ} {f : α → Except ε β} {f' : γ → Except ε δ}
    {k : β → δ} {l : List α} (h : ∀ a ∈ l, f' (change a) = (f a).map k) :
    (l.map change).mapM f' = (l.mapM f).map (List.map k) := by
  induction l with
  | nil => rfl
  | cons a rest ih =>
    obtain ⟨ha, hrest⟩ := List.forall_mem_cons.mp h
    rw [List.map_cons, List.mapM_cons, List.mapM_cons, ha, ih hrest, map_bind, bind_map]
    cases f a with
    | error fault => rfl
    | ok b => cases rest.mapM f <;> rfl

/-- Elements whose step yields nothing may be left out. -/
theorem Except.mapM_filter {f : α → Except ε (Option β)} {q : α → Bool} {l : List α}
    (h : ∀ a ∈ l, q a = false → f a = .ok none) :
    ((l.filter q).mapM f).map (List.filterMap id) = (l.mapM f).map (List.filterMap id) := by
  induction l with
  | nil => rfl
  | cons a rest ih =>
    obtain ⟨ha, hrest⟩ := List.forall_mem_cons.mp h
    have ih := ih hrest
    rw [List.mapM_cons]
    cases hq : q a with
    | true =>
      rw [List.filter_cons_of_pos hq, List.mapM_cons]
      cases f a with
      | error fault => rfl
      | ok b =>
        rw [ok_bind, ok_bind, bind_map, bind_map]
        have hstep : ∀ x : Except ε (List (Option β)),
            (x >>= fun bs => (Pure.pure (b :: bs) : Except ε _).map (List.filterMap id)) =
              (x.map (List.filterMap id)).map fun bs => b.toList ++ bs := by
          intro x
          cases x with
          | error fault => rfl
          | ok bs => cases b <;> rfl
        rw [hstep, hstep, ih]
    | false =>
      rw [List.filter_cons_of_neg (by simp [hq]), ha hq, ih]
      cases rest.mapM f <;> rfl

/-- A list of checks succeeds exactly when every check does. -/
theorem Except.forM_eq_ok_iff {f : α → Except ε Unit} {l : List α} :
    l.forM f = .ok () ↔ ∀ a ∈ l, f a = .ok () := by
  induction l with
  | nil => exact ⟨fun _ _ hmem => absurd hmem List.not_mem_nil, fun _ => rfl⟩
  | cons a rest ih =>
    rw [List.forM, Except.bind_eq_ok_iff, List.forall_mem_cons, ← ih]
    exact ⟨fun ⟨_, ha, hrest⟩ => ⟨ha, hrest⟩, fun ⟨ha, hrest⟩ => ⟨(), ha, hrest⟩⟩

/-- What every successful step keeps, a successful fold keeps. -/
theorem Except.foldlM_induction {f : β → α → Except ε β} {P : β → Prop}
    (step : ∀ b a b', P b → f b a = .ok b' → P b') {l : List α} {b b' : β} (start : P b)
    (h : l.foldlM f b = .ok b') : P b' := by
  induction l generalizing b with
  | nil =>
    rw [List.foldlM_nil, Except.pure_eq_ok, Except.ok.injEq] at h
    rwa [← h]
  | cons a rest ih =>
    rw [List.foldlM_cons] at h
    obtain ⟨mid, hmid, hrest⟩ := Except.bind_eq_ok_iff.mp h
    exact ih (step b a mid start hmid) hrest

/-! ## Computations with a journal -/

namespace Run

@[simp]
theorem outcome_bind (x : Run α) (f : α → Run β) :
    (x >>= f).outcome = x.outcome >>= fun a => (f a).outcome := by
  cases h : x.outcome with
  | error fault =>
    rw [bind_of_error h]
    rfl
  | ok a =>
    rw [bind_of_ok h]
    rfl

@[simp]
theorem outcome_map (f : α → β) (x : Run α) : (f <$> x).outcome = x.outcome.map f := by
  rw [map_eq_pure_bind, outcome_bind]
  cases x.outcome <;> rfl

@[simp]
theorem outcome_lift (x : Except Fault α) : (lift x).outcome = x := rfl

@[simp]
theorem outcome_fail (fault : Fault) : (fail fault : Run α).outcome = .error fault := rfl

@[simp]
theorem outcome_write (entries : List Entry) : (write entries).outcome = .ok () := rfl

@[simp]
theorem outcome_report (origin : Origin) (level : Level) (text : String) :
    (report origin level text).outcome = .ok () := rfl

@[simp]
theorem outcome_note (level : Level) (text : String) : (note level text).outcome = .ok () := rfl

@[simp]
theorem outcome_mapM (f : α → Run β) (l : List α) :
    (l.mapM f).outcome = l.mapM fun a => (f a).outcome := by
  induction l with
  | nil => rfl
  | cons a rest ih => simp only [List.mapM_cons, outcome_bind, ih, pure_outcome, Except.pure_eq_ok]

theorem outcome_foldlM (f : β → α → Run β) (b : β) (l : List α) :
    (l.foldlM f b).outcome = l.foldlM (fun b a => (f b a).outcome) b := by
  induction l generalizing b with
  | nil => rfl
  | cons a rest ih => simp only [List.foldlM_cons, outcome_bind, ih]

/-- A successful computation followed by another: both succeed. -/
theorem lift_ok_bind (a : α) (f : α → Run β) : lift (.ok a) >>= f = f a := rfl

theorem bind_outcome_eq_ok_iff {x : Run α} {f : α → Run β} {b : β} :
    (x >>= f).outcome = .ok b ↔ ∃ a, x.outcome = .ok a ∧ (f a).outcome = .ok b := by
  rw [outcome_bind, Except.bind_eq_ok_iff]

/-! ## What is in the journal -/

section Entries

variable {e : Entry}

/-- What was written stays written, whatever follows. -/
theorem mem_journal_bind_left {x : Run α} {f : α → Run β} (h : e ∈ x.journal) :
    e ∈ (x >>= f).journal := by
  cases hx : x.outcome with
  | error fault => rwa [bind_of_error hx]
  | ok a =>
    rw [bind_of_ok hx]
    exact List.mem_append_left _ h

theorem mem_journal_bind_right {x : Run α} {a : α} (hx : x.outcome = .ok a) {f : α → Run β}
    (h : e ∈ (f a).journal) : e ∈ (x >>= f).journal := by
  rw [bind_of_ok hx]
  exact List.mem_append_right _ h

/-- What one of a list of steps writes is written, if all of them are taken. -/
theorem mem_journal_mapM {f : α → Run β} {l : List α} {r : List β}
    (h : (l.mapM f).outcome = .ok r) {a : α} (ha : a ∈ l) (he : e ∈ (f a).journal) :
    e ∈ (l.mapM f).journal := by
  induction l generalizing r with
  | nil => cases ha
  | cons first rest ih =>
    rw [List.mapM_cons] at h ⊢
    obtain ⟨b, hb, h⟩ := bind_outcome_eq_ok_iff.mp h
    obtain ⟨bs, hbs, -⟩ := bind_outcome_eq_ok_iff.mp h
    rcases List.mem_cons.mp ha with rfl | ha
    · exact mem_journal_bind_left he
    · exact mem_journal_bind_right hb (mem_journal_bind_left (ih hbs ha))

end Entries

end Run

end CanTables
